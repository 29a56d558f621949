import Mathlib.Algebra.Order.Ring.Nat

namespace GoLease.Pool

variable {α : Type*}

theorem countP_set_add {p : α → Bool} {pool : List α} {i : Nat} {a b : α} (h : pool[i]? = some a) :
    (pool.set i b).countP p + (if p a then 1 else 0) = pool.countP p + (if p b then 1 else 0) := by
  obtain ⟨hi, rfl⟩ := List.getElem?_eq_some_iff.mp h
  rw [List.countP_set hi]
  have hle : (if p pool[i] then 1 else 0) ≤ pool.countP p := by
    split
    next hp => exact List.countP_pos_iff.mpr ⟨_, List.getElem_mem hi, hp⟩
    next => exact Nat.zero_le _
  omega

theorem sum_map_set_add {f : α → Nat} {pool : List α} {i : Nat} {a b : α} (h : pool[i]? = some a) :
    ((pool.set i b).map f).sum + f a = (pool.map f).sum + f b := by
  induction pool generalizing i with
  | nil => cases h
  | cons head pool ih =>
      cases i with
      | zero =>
          cases h
          simp only [List.set_cons_zero, List.map_cons, List.sum_cons]
          omega
      | succ i =>
          have hrest := ih (i := i) h
          simp only [List.set_cons_succ, List.map_cons, List.sum_cons]
          omega

theorem forall_mem_set {P : α → Prop} {pool : List α} {i : Nat} {b : α}
    (h : ∀ a ∈ pool, P a) (hb : P b) : ∀ a ∈ pool.set i b, P a := by
  intro a ha
  rcases List.mem_or_eq_of_mem_set ha with ha | rfl
  · exact h a ha
  · exact hb

theorem forall_mem_append {P : α → Prop} {pool : List α} {b : α}
    (h : ∀ a ∈ pool, P a) (hb : P b) : ∀ a ∈ pool ++ [b], P a := by
  intro a ha
  rcases List.mem_append.mp ha with ha | ha
  · exact h a ha
  · rwa [List.mem_singleton.mp ha]

theorem getElem?_concat {pool : List α} {i : Nat} {a b : α} (h : (pool ++ [b])[i]? = some a) :
    pool[i]? = some a ∨ i = pool.length ∧ a = b := by
  rcases Nat.lt_trichotomy i pool.length with hi | rfl | hi
  · rw [List.getElem?_append_left hi] at h
    exact .inl h
  · rw [List.getElem?_concat_length] at h
    exact .inr ⟨rfl, (Option.some.inj h).symm⟩
  · rw [List.getElem?_eq_none (by rw [List.length_append]; exact hi)] at h
    cases h

theorem getElem?_append_of_some {pool : List α} {i : Nat} {a : α} (h : pool[i]? = some a)
    (more : List α) : (pool ++ more)[i]? = some a :=
  (List.getElem?_append_left (List.getElem?_eq_some_iff.mp h).1).trans h

theorem getElem?_set_cases {pool : List α} {i j : Nat} {a b : α} (h : (pool.set i b)[j]? = some a) :
    i = j ∧ a = b ∨ i ≠ j ∧ pool[j]? = some a := by
  by_cases he : i = j
  · subst he
    have hi : i < pool.length := by simpa using (List.getElem?_eq_some_iff.mp h).1
    rw [List.getElem?_set_self hi] at h
    exact .inl ⟨rfl, (Option.some.inj h).symm⟩
  · rw [List.getElem?_set_ne he] at h
    exact .inr ⟨he, h⟩

theorem getElem?_set_of_some {pool : List α} {i : Nat} {a : α} (h : pool[i]? = some a) (b : α) :
    (pool.set i b)[i]? = some b := List.getElem?_set_self (List.getElem?_eq_some_iff.mp h).1

theorem filter_set_of_neg {p : α → Bool} {pool : List α} {i : Nat} {a b : α} (h : pool[i]? = some a)
    (ha : p a = false) (hb : p b = false) : (pool.set i b).filter p = pool.filter p := by
  induction pool generalizing i with
  | nil => cases h
  | cons head pool ih =>
      cases i with
      | zero =>
          cases h
          simp [ha, hb]
      | succ i =>
          simp only [List.set_cons_succ, List.filter_cons]
          rw [ih h]

/-- The only member of its kind is replaced. -/
theorem filter_set_of_singleton {p : α → Bool} {pool : List α} {i : Nat} {a c : α} (h : pool[i]? = some a)
    (ha : p a = true) (hone : pool.filter p = [c]) (b : α) :
    c = a ∧ (pool.set i b).filter p = if p b then [b] else [] := by
  induction pool generalizing i with
  | nil => cases h
  | cons head pool ih =>
      cases i with
      | zero =>
          cases h
          rw [List.filter_cons_of_pos ha] at hone
          obtain ⟨hc, hrest⟩ := List.cons.inj hone
          simp only [List.set_cons_zero, List.filter_cons, hrest]
          exact ⟨hc.symm, trivial⟩
      | succ i =>
          have hhead : p head = false := by
            by_contra hp
            rw [List.filter_cons_of_pos (by simpa using hp)] at hone
            have hmem : a ∈ pool.filter p := List.mem_filter.mpr ⟨List.mem_of_getElem? h, ha⟩
            rw [(List.cons.inj hone).2] at hmem
            cases hmem
          rw [List.filter_cons_of_neg (by simp [hhead])] at hone
          simp only [List.set_cons_succ, List.filter_cons, hhead]
          exact ih h hone

end GoLease.Pool
