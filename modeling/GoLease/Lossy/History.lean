import GoLease.Traces

/-!
Histories of a machine behind a connection on which an input can be refused
before it is executed, or its answer lost afterwards.
-/

namespace GoLease.Lossy

open Traces

variable {σ ι κ ο : Type*}

/-- A history that the machine explains without the connection. A definite
answer is its own, given once; an input with an uncertain answer was executed
or it was not. -/
inductive Explained (step : σ → ι → σ × ο) (Uncertain : ι → ο → Prop) : σ → List (ι × ο) → σ → Prop
  | nil (s : σ) : Explained step Uncertain s [] s
  | answered {s t : σ} {i : ι} {rest : List (ι × ο)} (h : Explained step Uncertain (step s i).1 rest t) :
      Explained step Uncertain s ((i, (step s i).2) :: rest) t
  | executed {s t : σ} {i : ι} {o : ο} {rest : List (ι × ο)} (hu : Uncertain i o)
      (h : Explained step Uncertain (step s i).1 rest t) : Explained step Uncertain s ((i, o) :: rest) t
  | missed {s t : σ} {i : ι} {o : ο} {rest : List (ι × ο)} (hu : Uncertain i o)
      (h : Explained step Uncertain s rest t) : Explained step Uncertain s ((i, o) :: rest) t

variable {step : σ → ι → σ × ο} {Uncertain : ι → ο → Prop}

/-- The three ways in which a single input passes the connection. -/
def Passes (step : σ → ι → σ × ο) (Uncertain : ι → ο → Prop) (s : σ) (i : ι) (result : σ × ο) : Prop :=
  result = step s i ∨ Uncertain i result.2 ∧ (result.1 = (step s i).1 ∨ result.1 = s)

/-- A connection that lets single inputs pass so lets whole runs be explained. -/
theorem explained_run {connection : σ → κ → σ × ο} {input : κ → ι}
    (h : ∀ s k, Passes step Uncertain s (input k) (connection s k)) (s : σ) (ks : List κ) :
    Explained step Uncertain s ((trace connection s ks).map (fun entry => (input entry.1, entry.2)))
      (run connection s ks) := by
  induction ks generalizing s with
  | nil => exact .nil s
  | cons k ks ih =>
      have hrest := ih (connection s k).1
      have hpasses := h s k
      simp only [trace, run, List.map_cons, List.foldl_cons] at hrest ⊢
      generalize connection s k = result at hpasses hrest ⊢
      obtain ⟨s', o⟩ := result
      rcases hpasses with hdone | ⟨hu, hexecuted | hmissed⟩
      · obtain ⟨rfl, rfl⟩ := Prod.mk.inj hdone
        exact .answered hrest
      · dsimp only at hexecuted
        subst hexecuted
        exact .executed hu hrest
      · dsimp only at hmissed
        subst hmissed
        exact .missed hu hrest

end GoLease.Lossy
