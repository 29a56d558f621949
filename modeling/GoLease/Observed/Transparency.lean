import GoLease.Observed.Backend
import GoLease.Memory.Store
import GoLease.Pool

namespace GoLease.Observed

open Traces Pool

variable {σ : Type} {exec : σ → Call → σ × Reply} {sha256 : Bytes → Bytes} {s s' : System σ}
  {action : Action}

section Calls

/-- The wrapped backend has answered this call with the reply, at its place in
the history. -/
def Answered (exec : σ → Call → σ × Reply) (store : σ) (served : List (Nat × Call)) (i : Nat)
    (request : Request) (reply : Reply) : Prop :=
  ∃ (n : Nat) (call : Call), served[n]? = some (i, call) ∧ call.request = request ∧
    reply = (exec (version exec store (served.map Prod.snd) n) call).2

theorem Answered.append {store : σ} {served : List (Nat × Call)} {i : Nat} {request : Request}
    {reply : Reply} (h : Answered exec store served i request reply) (more : List (Nat × Call)) :
    Answered exec store (served ++ more) i request reply := by
  obtain ⟨n, call, hn, hrequest, hreply⟩ := h
  refine ⟨n, call, getElem?_append_of_some hn more, hrequest, ?_⟩
  have hle : n ≤ (served.map Prod.snd).length := by
    rw [List.length_map]
    exact Nat.le_of_lt (List.getElem?_eq_some_iff.mp hn).1
  rw [List.map_append, version_append store hle, hreply]

/-- The decorated backend does to the wrapped one what its callers ask, and
hands back what it returns. -/
structure Transparent (exec : σ → Call → σ × Reply) (store : σ) (s : System σ) : Prop where
  backend : s.store = run exec store (s.served.map Prod.snd)
  once : (s.served.map Prod.fst).Nodup
  callers : ∀ (i : Nat) caller, s.callers[i]? = some caller →
    match caller.stage.reply? with
    | none => i ∉ s.served.map Prod.fst
    | some reply => Answered exec store s.served i caller.request reply
  known : ∀ entry ∈ s.served, entry.1 < s.callers.length

/-- Every call that the wrapped backend has seen is the call of one of the
callers, and one that it has answered. -/
theorem Transparent.served_by {store : σ} (h : Transparent exec store s) {entry : Nat × Call}
    (hentry : entry ∈ s.served) :
    ∃ caller reply, s.callers[entry.1]? = some caller ∧ caller.stage.reply? = some reply ∧
      entry.2.request = caller.request := by
  have hcaller := List.getElem?_eq_getElem (h.known entry hentry)
  have hstage := h.callers entry.1 _ hcaller
  split at hstage
  next => exact absurd (List.mem_map_of_mem hentry) hstage
  next reply hreply =>
    obtain ⟨n, call, hn, hrequest, _⟩ := hstage
    have heq : entry = (entry.1, call) :=
      List.inj_on_of_nodup_map h.once hentry (List.mem_of_getElem? hn) rfl
    have hcall : entry.2 = call := congrArg Prod.snd heq
    exact ⟨_, reply, hcaller, hreply, hcall ▸ hrequest⟩

/-- A step that leaves the wrapped backend alone and no caller's reply behind. -/
theorem Transparent.keep {store : σ} (h : Transparent exec store s) {i : Nat} {request : Request}
    {stage stage' : Stage} (hi : s.callers[i]? = some ⟨request, stage⟩)
    (hcallers : s'.callers = s.callers.set i ⟨request, stage'⟩) (hreply : stage'.reply? = stage.reply?)
    (hstore : s'.store = s.store) (hserved : s'.served = s.served) : Transparent exec store s' := by
  refine ⟨?_, ?_, ?_, ?_⟩
  · rw [hstore, hserved]
    exact h.backend
  · rw [hserved]
    exact h.once
  · intro j caller hj
    rw [hcallers] at hj
    rw [hserved]
    rcases getElem?_set_cases hj with ⟨rfl, rfl⟩ | ⟨_, hj⟩
    · have hold := h.callers i _ hi
      rw [hreply]
      exact hold
    · exact h.callers j caller hj
  · rw [hserved, hcallers, List.length_set]
    exact h.known

theorem Transparent.step {store : σ} (h : Transparent exec store s) (hs : Step exec sha256 s action s') :
    Transparent exec store s' := by
  cases hs with
  | blocked => exact h
  | invoked request =>
      refine ⟨h.backend, h.once, ?_, ?_⟩
      · intro i caller hi
        rcases getElem?_concat hi with hi | ⟨rfl, rfl⟩
        · exact h.callers i caller hi
        · intro hmem
          obtain ⟨entry, hentry, heq⟩ := List.mem_map.mp hmem
          exact absurd (h.known entry hentry) (by omega)
      · intro entry hentry
        rw [List.length_append]
        exact Nat.lt_of_lt_of_le (h.known entry hentry) (Nat.le_add_right _ _)
  | @served i now ctx request hi =>
      have hnew : i ∉ s.served.map Prod.fst := h.callers i _ hi
      refine ⟨?_, ?_, ?_, ?_⟩
      · simp only [List.map_append, List.map_cons, List.map_nil, run_append, ← h.backend]
        rfl
      · rw [List.map_append, List.nodup_append]
        refine ⟨h.once, List.nodup_singleton _, ?_⟩
        intro a ha b hb
        rw [List.mem_singleton.mp hb]
        rintro rfl
        exact hnew ha
      · intro j caller hj
        rcases getElem?_set_cases hj with ⟨rfl, rfl⟩ | ⟨hne, hj⟩
        · refine ⟨s.served.length, ⟨now, ctx, request⟩, List.getElem?_concat_length, rfl, ?_⟩
          have hlen : s.served.length = (s.served.map Prod.snd).length := (List.length_map _).symm
          rw [List.map_append, hlen, version_append store (Nat.le_refl _), version_length, ← h.backend]
        · have hold := h.callers j caller hj
          cases hr : caller.stage.reply? with
          | none =>
              rw [hr] at hold
              simpa [Ne.symm hne] using hold
          | some reply =>
              rw [hr] at hold
              exact hold.append _
      · rw [List.length_set]
        refine forall_mem_append h.known ?_
        exact (List.getElem?_eq_some_iff.mp hi).1
  | described hi => exact h.keep hi rfl rfl rfl rfl
  | taken hi => exact h.keep hi rfl rfl rfl rfl
  | dropped hi => exact h.keep hi rfl rfl rfl rfl
  | returned hi => exact h.keep hi rfl rfl rfl rfl
  | began => exact ⟨h.backend, h.once, h.callers, h.known⟩
  | ended => exact ⟨h.backend, h.once, h.callers, h.known⟩
  | drained => exact ⟨h.backend, h.once, h.callers, h.known⟩

end Calls

section Waiting

/-- The steps that a call still takes after the wrapped backend has returned. -/
def Stage.remaining (observers : Nat) : Stage → Nat
  | .calling | .returned _ => 0
  | .replied _ => observers + 2
  | .emitting _ slot _ => observers - slot + 1

def Action.advances (i : Nat) : Action → Bool
  | .advance j _ => i == j
  | _ => false

theorem Step.slots_length (hs : Step exec sha256 s action s') : s'.slots.length = s.slots.length := by
  cases hs <;> simp

/-- Some steps later a call has the same request and reply, and has used up as
many of its steps as it took. -/
structure Follows (observers taken : Nat) (caller caller' : Caller) : Prop where
  request : caller'.request = caller.request
  reply : caller'.stage.reply? = caller.stage.reply?
  remaining : caller'.stage.remaining observers ≤ caller.stage.remaining observers - taken

theorem Follows.refl (observers : Nat) (caller : Caller) : Follows observers 0 caller caller :=
  ⟨rfl, rfl, Nat.le_refl _⟩

theorem Follows.trans {observers m n : Nat} {caller caller' caller'' : Caller}
    (h : Follows observers m caller caller') (h' : Follows observers n caller' caller'') :
    Follows observers (m + n) caller caller'' := by
  refine ⟨h'.request.trans h.request, h'.reply.trans h.reply, ?_⟩
  have hm := h.remaining
  have hn := h'.remaining
  omega

/-- The effect of a step of one call on the list of calls. -/
theorem follows_set {n i j : Nat} {time : Int} {caller : Caller} {request : Request} {stage stage' : Stage}
    (hi : s.callers[i]? = some caller) (hj : s.callers[j]? = some ⟨request, stage⟩)
    (hcallers : s'.callers = s.callers.set j ⟨request, stage'⟩) (hreply : stage'.reply? = stage.reply?)
    (hlt : stage'.remaining n < stage.remaining n) :
    ∃ caller', s'.callers[i]? = some caller' ∧
      Follows n (if (Action.advance j time).advances i then 1 else 0) caller caller' := by
  rw [hcallers]
  by_cases hij : i = j
  · subst hij
    cases hi.symm.trans hj
    refine ⟨_, getElem?_set_of_some hj _, rfl, hreply, ?_⟩
    simp only [Action.advances, beq_self_eq_true, if_true]
    exact Nat.le_sub_one_of_lt hlt
  · refine ⟨caller, (List.getElem?_set_ne (Ne.symm hij)).trans hi, ?_⟩
    simp only [Action.advances, beq_eq_false_iff_ne.mpr hij, Bool.false_eq_true, if_false]
    exact .refl n caller

/-- No step but its own changes a call that has its reply, and none of its own
steps waits. -/
theorem Step.follows (hs : Step exec sha256 s action s') {i : Nat} {caller : Caller} {reply : Reply}
    (hi : s.callers[i]? = some caller) (hreply : caller.stage.reply? = some reply) :
    ∃ caller', s'.callers[i]? = some caller' ∧
      Follows s.slots.length (if action.advances i then 1 else 0) caller caller' := by
  cases hs with
  | blocked _ hwait =>
      refine ⟨caller, hi, ?_⟩
      split
      next hown =>
        obtain ⟨time, rfl⟩ : ∃ time, action = .advance i time := by
          cases action with
          | advance j time =>
              simp only [Action.advances, beq_iff_eq] at hown
              exact ⟨time, by rw [hown]⟩
          | invoke | execute | schedule => cases hown
        refine ⟨rfl, rfl, ?_⟩
        rcases hwait i time rfl caller hi with hcalling | ⟨reply, hreturned⟩
        · rw [hcalling] at hreply
          cases hreply
        · rw [hreturned]
          exact Nat.zero_le _
      next => exact .refl _ caller
  | invoked => exact ⟨caller, getElem?_append_of_some hi _, .refl _ caller⟩
  | @served j now ctx request hj =>
      have hij : j ≠ i := by
        rintro rfl
        cases hi.symm.trans hj
        cases hreply
      exact ⟨caller, (List.getElem?_set_ne hij).trans hi, .refl _ caller⟩
  | described hj =>
      refine follows_set hi hj rfl rfl ?_
      simp only [Stage.remaining]
      omega
  | taken hj hslot | dropped hj hslot =>
      refine follows_set hi hj rfl rfl ?_
      have hlt := (List.getElem?_eq_some_iff.mp hslot).1
      simp only [Stage.remaining]
      omega
  | returned hj => exact follows_set hi hj rfl rfl (Nat.succ_pos _)
  | began | ended | drained => exact ⟨caller, hi, .refl _ caller⟩

theorem run_follows (actions : List Action) {i : Nat} {caller : Caller} {reply : Reply}
    (hi : s.callers[i]? = some caller) (hreply : caller.stage.reply? = some reply) :
    ∃ caller', (actions.foldl (System.step exec sha256) s).callers[i]? = some caller' ∧
      Follows s.slots.length (actions.countP (Action.advances i)) caller caller' := by
  induction actions generalizing s caller with
  | nil => exact ⟨caller, hi, .refl _ caller⟩
  | cons action actions ih =>
      have hs := @step_step _ exec sha256 s action
      obtain ⟨next, hnext, hfirst⟩ := hs.follows hi hreply
      obtain ⟨last, hlast, hrest⟩ := ih hnext (hfirst.reply.trans hreply)
      rw [hs.slots_length] at hrest
      refine ⟨last, hlast, ?_⟩
      rw [List.countP_cons, Nat.add_comm]
      exact hfirst.trans hrest

theorem returned_of_remaining {observers : Nat} {stage : Stage} {reply : Reply}
    (hreply : stage.reply? = some reply) (h : stage.remaining observers = 0) : stage = .returned reply := by
  cases stage with
  | calling => cases hreply
  | replied => cases h
  | emitting => cases h
  | returned =>
      cases hreply
      rfl

end Waiting

theorem newObservedBackend_ok {β κ ω : Type} {backend : Option β} {clock : Option κ}
    {options : List (Option ω)} {observers : List ω}
    (h : newObservedBackend backend clock options = .ok observers) :
    0 < observers.length ∧ observers.length ≤ 16 := by
  unfold newObservedBackend at h
  split at h
  next => cases h
  next hbounds =>
    split at h
    next hall =>
      cases h
      have hlen : (options.filterMap id).length = options.length :=
        List.filterMap_length_eq_length.mpr (List.all_eq_true.mp hall)
      omega
    next => cases h

/-- Observation never delays or changes a lease operation. Over any backend,
whatever the callbacks do, the wrapped backend sees the calls of the callers
and no others, each of them once, and the caller gets its reply after at most
eighteen steps of its own. -/
theorem observation_is_transparent {β κ ω : Type} {backend : Option β} {clock : Option κ}
    {options : List (Option ω)} {observers : List ω}
    (hnew : newObservedBackend backend clock options = .ok observers) (exec : σ → Call → σ × Reply)
    (sha256 : Bytes → Bytes) (store : σ) (actions : List Action) :
    let s := actions.foldl (System.step exec sha256) (start store observers.length)
    s.store = run exec store (s.served.map Prod.snd) ∧ (s.served.map Prod.fst).Nodup ∧
    (∀ entry ∈ s.served, ∃ caller reply, s.callers[entry.1]? = some caller ∧
      caller.stage.reply? = some reply ∧ entry.2.request = caller.request) ∧
    ∀ (i : Nat) caller reply, s.callers[i]? = some caller → caller.stage.reply? = some reply →
      Answered exec store s.served i caller.request reply ∧
      ∀ more : List Action, 18 ≤ more.countP (Action.advances i) →
        (more.foldl (System.step exec sha256) s).callers[i]? = some ⟨caller.request, .returned reply⟩ := by
  intro s
  have h : Transparent exec store s ∧ s.slots.length = observers.length := by
    refine invariant_rule (P := fun s => Transparent exec store s ∧ s.slots.length = observers.length)
      ?_ ?_ actions
    · exact ⟨⟨rfl, List.nodup_nil, by simp [start], by simp [start]⟩, List.length_replicate⟩
    · rintro s action ⟨h, hlen⟩
      have hs := @step_step _ exec sha256 s action
      exact ⟨h.step hs, hs.slots_length.trans hlen⟩
  refine ⟨h.1.backend, h.1.once, fun entry => h.1.served_by, ?_⟩
  intro i caller reply hi hreply
  refine ⟨?_, ?_⟩
  · have hcaller := h.1.callers i caller hi
    rw [hreply] at hcaller
    exact hcaller
  · intro more hmore
    obtain ⟨last, hlast, hf⟩ := @run_follows _ exec sha256 s more i caller reply hi hreply
    have hbound := (newObservedBackend_ok hnew).2
    have hdone : last.stage.remaining s.slots.length = 0 := by
      have hle := hf.remaining
      have hmax : caller.stage.remaining s.slots.length ≤ s.slots.length + 2 := by
        cases caller.stage <;> simp only [Stage.remaining] <;> omega
      omega
    rw [hlast]
    obtain ⟨request, stage⟩ := last
    rw [show request = caller.request from hf.request,
      show stage = .returned reply from returned_of_remaining (hf.reply.trans hreply) hdone]

/-- The observer is still busy with the first call when the second one is made. -/
def stuck : List Action :=
  [.invoke (.validate zeroRecord), .execute 0 0 none, .advance 0 0, .advance 0 0, .advance 0 0,
    .schedule 0, .invoke (.release zeroRecord), .execute 1 0 none]

theorem observation_is_transparent_stuck :
    newObservedBackend (some Memory.Store.exec) (some ()) [some ()] = .ok [()] ∧
    ((List.replicate 18 (.advance 1 0)).foldl (System.step Memory.Store.exec id)
      (stuck.foldl (System.step Memory.Store.exec id) (start ⟨1, ∅⟩ 1))).callers[1]? =
        some ⟨.release zeroRecord, .returned ⟨zeroRecord, some (wrap .errInvalidState "identity")⟩⟩ := by
  have hnew : newObservedBackend (some Memory.Store.exec) (some ()) [some ()] = .ok [()] := rfl
  have h := observation_is_transparent hnew Memory.Store.exec id ⟨1, ∅⟩ stuck
  exact ⟨hnew, (h.2.2.2 1 _ _ rfl rfl).2 _ (by decide)⟩

end GoLease.Observed
