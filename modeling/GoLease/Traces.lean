import Mathlib.Data.List.Induction

namespace GoLease.Traces

variable {σ ι ο : Type*}

/-- The state after a machine that answers its inputs has consumed a list of
them. -/
def run (step : σ → ι → σ × ο) (s : σ) (is : List ι) : σ := is.foldl (fun s i => (step s i).1) s

/-- The inputs of a run, each with the answer it received. -/
def trace (step : σ → ι → σ × ο) : σ → List ι → List (ι × ο)
  | _, [] => []
  | s, i :: is => (i, (step s i).2) :: trace step (step s i).1 is

/-- Every step of the run is taken from a state that meets the condition. -/
def Along (next : σ → ι → σ) (C : σ → ι → Prop) : σ → List ι → Prop
  | _, [] => True
  | s, i :: is => C s i ∧ Along next C (next s i) is

instance decidableAlong (next : σ → ι → σ) (C : σ → ι → Prop) [∀ s i, Decidable (C s i)] :
    (s : σ) → (is : List ι) → Decidable (Along next C s is)
  | _, [] => .isTrue trivial
  | s, i :: is =>
    have := decidableAlong next C (next s i) is
    inferInstanceAs (Decidable (C s i ∧ Along next C (next s i) is))

section Answers

variable {step : σ → ι → σ × ο}

@[simp] theorem run_nil (s : σ) : run step s [] = s := rfl

theorem run_append (s : σ) (is js : List ι) :
    run step s (is ++ js) = run step (run step s is) js := List.foldl_append

theorem trace_append (s : σ) (is js : List ι) :
    trace step s (is ++ js) = trace step s is ++ trace step (run step s is) js := by
  induction is generalizing s with
  | nil => rfl
  | cons i is ih => exact congrArg (_ :: ·) (ih _)

theorem mem_of_mem_trace {s : σ} {is : List ι} {entry : ι × ο} (h : entry ∈ trace step s is) :
    entry.1 ∈ is := by
  induction is generalizing s with
  | nil => cases h
  | cons i is ih =>
      rcases List.mem_cons.mp h with rfl | h
      · exact List.mem_cons_self
      · exact List.mem_cons_of_mem _ (ih h)

/-- A relation between the history so far and the state, kept by each step,
holds at the end of every run. -/
theorem history_rule {P : List (ι × ο) → σ → Prop} {s : σ} (h : P [] s)
    (hstep : ∀ past s i, P past s → P (past ++ [(i, (step s i).2)]) (step s i).1) (is : List ι) :
    P (trace step s is) (run step s is) := by
  induction is using List.reverseRecOn with
  | nil => exact h
  | append_singleton is i ih =>
      rw [trace_append, run_append]
      exact hstep _ _ i ih

/-- What every answered input of one kind keeps holds after every run of them. -/
theorem run_rule {P : σ → Prop} {C : ι → Prop} {s : σ} (h : P s)
    (hstep : ∀ s i, P s → C i → P (step s i).1) {is : List ι} (hC : ∀ i ∈ is, C i) :
    P (run step s is) :=
  List.foldlRecOn is _ h (fun s hs i hi => hstep s i hs (hC i hi))

/-- The state that a run has reached after some of its inputs. -/
def version (step : σ → ι → σ × ο) (s : σ) (is : List ι) (n : Nat) : σ := run step s (is.take n)

@[simp] theorem version_length (s : σ) (is : List ι) : version step s is is.length = run step s is := by
  rw [version, List.take_length]

theorem version_append {n : Nat} (s : σ) {is : List ι} (h : n ≤ is.length) (js : List ι) :
    version step s (is ++ js) n = version step s is n := by
  rw [version, List.take_append_of_le_length h, version]

theorem version_succ {n : Nat} (s : σ) {is : List ι} {i : ι} (h : is[n]? = some i) :
    version step s is (n + 1) = (step (version step s is n) i).1 := by
  rw [version, List.take_add_one, h, run_append]
  rfl

/-- What every step keeps passes from one version to every later one. -/
theorem version_rule {P : σ → Prop} {s : σ} {is : List ι} {m n : Nat} (h : P (version step s is m))
    (hstep : ∀ s i, P s → P (step s i).1) (hle : m ≤ n) : P (version step s is n) := by
  obtain ⟨d, rfl⟩ := Nat.exists_eq_add_of_le hle
  rw [version, List.take_add, run_append]
  exact run_rule (C := fun _ => True) h (fun s i hs _ => hstep s i hs) (fun _ _ => trivial)

end Answers

variable {next : σ → ι → σ}

/-- What every step keeps holds after every run. -/
theorem invariant_rule {P : σ → Prop} {s : σ} (h : P s) (hstep : ∀ s i, P s → P (next s i))
    (is : List ι) : P (is.foldl next s) :=
  List.foldlRecOn is next h (fun s hs i _ => hstep s i hs)

/-- The same for the runs whose steps all meet a condition. -/
theorem along_rule {P : σ → Prop} {C : σ → ι → Prop} {s : σ} (h : P s)
    (hstep : ∀ s i, P s → C s i → P (next s i)) {is : List ι} (hC : Along next C s is) :
    P (is.foldl next s) := by
  induction is generalizing s with
  | nil => exact h
  | cons i is ih => exact ih (hstep s i h hC.1) hC.2

theorem along_append {C : σ → ι → Prop} {s : σ} {is js : List ι} (h : Along next C s is)
    (h' : Along next C (is.foldl next s) js) : Along next C s (is ++ js) := by
  induction is generalizing s with
  | nil => exact h'
  | cons i is ih => exact ⟨h.1, ih h.2 h'⟩

theorem exists_of_not_along {C : σ → ι → Prop} {s : σ} {is : List ι} (h : ¬Along next C s is) :
    ∃ before i after, is = before ++ i :: after ∧ ¬C (before.foldl next s) i := by
  induction is generalizing s with
  | nil => exact absurd trivial h
  | cons i is ih =>
      by_cases hi : C s i
      · obtain ⟨before, j, after, rfl, hj⟩ := ih (fun hrest => h ⟨hi, hrest⟩)
        exact ⟨i :: before, j, after, rfl, hj⟩
      · exact ⟨[], i, is, rfl, hi⟩

/-- Where every state that is not done has an allowed step that lowers a
measure, an allowed run ends in one that is. -/
theorem reaches_rule {I D : σ → Prop} {A : ι → Prop} (m : σ → Nat)
    (hstep : ∀ s, I s → ¬D s → ∃ i, A i ∧ I (next s i) ∧ m (next s i) < m s) {s : σ} (h : I s) :
    ∃ is : List ι, (∀ i ∈ is, A i) ∧ is.length ≤ m s ∧ I (is.foldl next s) ∧ D (is.foldl next s) := by
  induction hm : m s using Nat.strongRecOn generalizing s with
  | ind n ih =>
      by_cases hd : D s
      · exact ⟨[], nofun, Nat.zero_le _, h, hd⟩
      · obtain ⟨i, hi, hnext, hlt⟩ := hstep s h hd
        obtain ⟨is, his, hle, hdone⟩ := ih (m (next s i)) (hm ▸ hlt) hnext rfl
        refine ⟨i :: is, List.forall_mem_cons.mpr ⟨hi, his⟩, ?_, hdone⟩
        rw [List.length_cons]
        omega

/-- Induction over the histories of a prefix-closed set. -/
theorem prefix_rule {A P : List ι → Prop} (hA : ∀ past i, A (past ++ [i]) → A past) (h : P [])
    (hstep : ∀ past i, A (past ++ [i]) → P past → P (past ++ [i])) {is : List ι} (his : A is) : P is := by
  induction is using List.reverseRecOn with
  | nil => exact h
  | append_singleton past i ih => exact hstep past i his (ih (hA past i his))

/-- Every step of one machine is matched by steps of another, so every run is. -/
theorem simulation_rule {τ κ : Type*} {next' : τ → κ → τ} {R : σ → τ → Prop} {s : σ} {t : τ} (h : R s t)
    (hstep : ∀ s t i, R s t → ∃ js : List κ, R (next s i) (js.foldl next' t)) (is : List ι) :
    ∃ js : List κ, R (is.foldl next s) (js.foldl next' t) := by
  induction is generalizing s t with
  | nil => exact ⟨[], h⟩
  | cons i is ih =>
      obtain ⟨first, hfirst⟩ := hstep s t i h
      obtain ⟨rest, hrest⟩ := ih hfirst
      refine ⟨first ++ rest, ?_⟩
      rw [List.foldl_append]
      exact hrest

end GoLease.Traces
