import GoLease.Redaction.Texts
import GoLease.Remote

/-!
Where the errors of a handle come from: they are its own or those of a reply,
through every call, renewal and loss.
-/

namespace GoLease.Redaction

open Lifecycle Pool Traces

section Handle

variable {P : Error → Prop}

def StageOnly (P : Error → Prop) : Stage → Prop
  | .reserved _ | .dispatched _ _ => True
  | .replied _ _ reply => Silent P reply
  | .returned err => ∀ e, err = some e → P e

def RenewerOnly (P : Error → Prop) : Renewer → Prop
  | .sleeping | .awake | .renewing _ => True
  | .failed err => P err
  | .exiting loss | .exited loss => ∀ l, loss = some l → P l.err

/-- Every error that a handle's calls and renewers have seen is of this kind. -/
structure MachineOnly (P : Error → Prop) (m : Machine) : Prop where
  calls : ∀ call ∈ m.calls, StageOnly P call.stage
  renewers : ∀ renewer ∈ m.renewers, RenewerOnly P renewer

theorem machineOnly_initial (handle : Handle) : MachineOnly P (initial handle) :=
  ⟨fun _ hmem => absurd hmem List.not_mem_nil, fun _ hmem => absurd hmem List.not_mem_nil⟩

theorem requireActiveLocked_only (hwrap : ∀ target operation, P (wrap target operation)) (handle : Handle)
    (reading : Reading) {err : Error} (h : (handle.requireActiveLocked reading).2 = some err) : P err := by
  simp only [Handle.requireActiveLocked] at h
  split_ifs at h <;> cases h <;> exact hwrap _ _

theorem start_only (hwrap : ∀ target operation, P (wrap target operation)) (handle : Handle) (op : Op)
    (reading : Reading) : StageOnly P (.ofAdmission (handle.start op reading).2) := by
  have hactive : StageOnly P (.ofAdmission (handle.beginActiveOperation reading).2) := by
    have hrequire (err : Error) := @requireActiveLocked_only P hwrap handle reading err
    simp only [Handle.beginActiveOperation]
    generalize handle.requireActiveLocked reading = result at hrequire ⊢
    obtain ⟨handle', _ | err⟩ := result
    · dsimp only
      split
      next =>
        intro e he
        cases he
        exact hwrap _ _
      next => trivial
    · exact hrequire
  cases op with
  | renew | validate => exact hactive
  | release =>
      simp only [Handle.start, Handle.beginRelease]
      split_ifs
      · intro e he
        cases he
      · intro e he
        cases he
        exact hwrap _ _
      · intro e he
        cases he
        exact hwrap _ _
      · trivial

theorem replyErr_only (hwrap : ∀ target operation, P (wrap target operation)) {record : Record}
    {reply : Reply} (h : Silent P reply) (op : Op) {err : Error}
    (herr : Handle.replyErr record reply op = some err) :
    P err := by
  cases op with
  | renew | validate =>
      simp only [Handle.replyErr] at herr
      split_ifs at herr
      · cases herr
        exact hwrap _ _
      · exact h err herr
  | release => exact h err herr

theorem acceptLocked_only (hwrap : ∀ target operation, P (wrap target operation)) (handle : Handle)
    (record : Record) {err : Option Error} (h : ∀ e, err = some e → P e) (deadline wallDeadline : Int) :
    ∀ e, (handle.acceptLocked record err deadline wallDeadline).2 = some e → P e := by
  intro e he
  cases err with
  | some err =>
      cases he
      exact h _ rfl
  | none =>
      simp only [Handle.acceptLocked] at he
      split_ifs at he
      cases he
      exact hwrap _ _

theorem finish_only (hwrap : ∀ target operation, P (wrap target operation)) (handle : Handle)
    (reading : Reading) (record : Record) (started : Reading) {reply : Reply} (h : Silent P reply) (op : Op) :
    StageOnly P (.returned (handle.finish reading record started reply op).2) := by
  have hreply (op : Op) (e : Error) := @replyErr_only P hwrap record reply h op e
  cases op with
  | renew | validate => exact acceptLocked_only hwrap _ _ (hreply _) _ _
  | release =>
      intro e he
      simp only [Handle.finish, Handle.finishRelease] at he
      split at he
      next err herr =>
        cases he
        exact hreply _ _ herr
      next => cases he

/-- The reply that an event brings. -/
def EventOnly (P : Error → Prop) : Lifecycle.Event → Prop
  | .reply _ reply => Silent P reply
  | _ => True

theorem MachineOnly.invoke (hwrap : ∀ target operation, P (wrap target operation)) {m : Machine}
    (h : MachineOnly P m) (op : Op) (reading : Reading) : MachineOnly P (m.invoke op reading) :=
  ⟨forall_mem_append h.calls (start_only hwrap m.handle op reading), h.renewers⟩

theorem MachineOnly.step (hwrap : ∀ target operation, P (wrap target operation)) {m : Machine}
    (h : MachineOnly P m) {event : Lifecycle.Event} (hevent : EventOnly P event) :
    MachineOnly P (m.step event) := by
  cases event with
  | state reading => exact ⟨h.calls, h.renewers⟩
  | invoke op reading => exact h.invoke hwrap op reading
  | dispatch call reading =>
      simp only [Machine.step, Machine.dispatch]
      split
      next => exact ⟨forall_mem_set h.calls trivial, h.renewers⟩
      next => exact h
  | reply call reply =>
      simp only [Machine.step, Machine.reply]
      split
      next => exact ⟨forall_mem_set h.calls hevent, h.renewers⟩
      next => exact h
  | finish call reading =>
      simp only [Machine.step, Machine.finish]
      split
      next op record started reply hc =>
        have hreply : Silent P reply := h.calls _ (List.mem_of_getElem? hc)
        have hfinish := finish_only hwrap m.handle reading record started hreply op
        exact ⟨forall_mem_set h.calls hfinish, h.renewers⟩
      next => exact h
  | startManaged reading slot =>
      refine ⟨h.calls, ?_⟩
      simp only [Machine.step, Machine.startManaged]
      split
      next => exact forall_mem_append h.renewers trivial
      next => exact h.renewers
  | wake renewer err =>
      simp only [Machine.step, Machine.wake]
      split
      next =>
        refine ⟨h.calls, forall_mem_set h.renewers ?_⟩
        split
        next => trivial
        next =>
          intro l hl
          cases hl
      next => exact h
  | renew renewer reading =>
      simp only [Machine.step, Machine.renew]
      split
      next => exact ⟨(h.invoke hwrap .renew reading).calls, forall_mem_set h.renewers trivial⟩
      next => exact h
  | resume renewer =>
      simp only [Machine.step, Machine.resume]
      split
      next call _ =>
        split
        next => exact ⟨h.calls, forall_mem_set h.renewers trivial⟩
        next op err hc =>
          have hreturned : StageOnly P (.returned (some err)) := h.calls _ (List.mem_of_getElem? hc)
          exact ⟨h.calls, forall_mem_set h.renewers (hreturned err rfl)⟩
        next => exact h
      next => exact h
  | lose renewer reading =>
      simp only [Machine.step, Machine.lose]
      split
      next err hr =>
        refine ⟨h.calls, forall_mem_set h.renewers ?_⟩
        intro l hl
        cases hl
        exact h.renewers _ (List.mem_of_getElem? hr)
      next => exact h
  | exit renewer =>
      simp only [Machine.step, Machine.exit]
      split
      next loss hr =>
        have hexiting : RenewerOnly P (.exiting loss) := h.renewers _ (List.mem_of_getElem? hr)
        exact ⟨h.calls, forall_mem_set h.renewers hexiting⟩
      next => exact h

end Handle

section Fleet

variable {σ : Type} {P : Error → Prop} {exec : σ → Call → σ × Reply} {f : Fleet σ}

def HolderOnly (P : Error → Prop) : Holder → Prop
  | .waiting => True
  | .failed err => P err
  | .holding m => MachineOnly P m

def ReplyOnly (P : Error → Prop) (reply : Option Reply) : Prop := ∀ r, reply = some r → Silent P r

/-- Every error that the clients and handles have seen or will see is of this kind. -/
structure FleetOnly (P : Error → Prop) (f : Fleet σ) : Prop where
  sessions : ∀ s ∈ f.sessions, ReplyOnly P s.reply ∧ HolderOnly P s.holder
  messages : ∀ msg ∈ f.messages, ReplyOnly P msg.reply

/-- The errors with which a client gives up waiting for an answer. -/
def GivesUpOnly (P : Error → Prop) : Fleet.Event → Prop
  | .abandonAcquire _ err | .abandon _ err => P err
  | _ => True

theorem replyOnly_none : ReplyOnly P none := by
  intro r hr
  cases hr

theorem replyOnly_some {reply : Reply} (h : Silent P reply) : ReplyOnly P (some reply) := by
  intro r hr
  cases hr
  exact h

theorem FleetOnly.setHolder (h : FleetOnly P f) (i : Nat) {holder : Holder} (hholder : HolderOnly P holder) :
    FleetOnly P (f.setHolder i holder) := by
  simp only [Fleet.setHolder]
  split
  next s hs =>
    have hreply := (h.sessions s (List.mem_of_getElem? hs)).1
    exact ⟨forall_mem_set h.sessions ⟨hreply, hholder⟩, h.messages⟩
  next => exact h

theorem FleetOnly.machine (h : FleetOnly P f) {i : Nat} {m : Machine} (hm : f.machine i = some m) :
    MachineOnly P m := by
  obtain ⟨s, hs, hholder⟩ := Fleet.holding_of_machine hm
  have hsession := (h.sessions s (List.mem_of_getElem? hs)).2
  rw [hholder] at hsession
  exact hsession

theorem FleetOnly.drive (hwrap : ∀ target operation, P (wrap target operation)) (h : FleetOnly P f) (i : Nat)
    {event : Lifecycle.Event} (hevent : EventOnly P event) : FleetOnly P (f.drive i event) := by
  simp only [Fleet.drive]
  split
  next m hm => exact h.setHolder i ((h.machine hm).step hwrap hevent)
  next => exact h

theorem eventOnly_stamp {now : Int} {event stamped : Lifecycle.Event}
    (h : Fleet.stamp now event = some stamped) : EventOnly P stamped := by
  cases event <;> cases h <;> trivial

theorem FleetOnly.completeAcquire (hwrap : ∀ target operation, P (wrap target operation)) (h : FleetOnly P f)
    (i : Nat) : FleetOnly P (f.completeAcquire i) := by
  simp only [Fleet.completeAcquire]
  split
  next key owner policy started record hs =>
    split
    next handle _ => exact h.setHolder i (machineOnly_initial handle)
    next err herr =>
      refine h.setHolder i ?_
      simp only [Client.accept] at herr
      split at herr
      next => cases herr
      next =>
        cases herr
        exact hwrap _ _
  next err hs =>
    have hsession := (h.sessions _ (List.mem_of_getElem? hs)).1
    exact h.setHolder i (hsession _ rfl err rfl)
  next => exact h

theorem FleetOnly.step (hwrap : ∀ target operation, P (wrap target operation))
    (hexec : ∀ store call, Silent P (exec store call).2) (h : FleetOnly P f) {event : Fleet.Event}
    (hevent : GivesUpOnly P event) : FleetOnly P (f.step exec event) := by
  cases event with
  | tick elapsed => exact ⟨h.sessions, h.messages⟩
  | dispatchAcquire key owner policy clock =>
      exact ⟨forall_mem_append h.sessions ⟨replyOnly_none, trivial⟩, h.messages⟩
  | executeAcquire i ctx =>
      simp only [Fleet.step, Fleet.executeAcquire]
      split
      next s hs =>
        split
        next => exact h
        next =>
          have hholder := (h.sessions s (List.mem_of_getElem? hs)).2
          exact ⟨forall_mem_set h.sessions ⟨replyOnly_some (hexec _ _), hholder⟩, h.messages⟩
      next => exact h
  | completeAcquire i => exact h.completeAcquire hwrap i
  | abandonAcquire i err =>
      simp only [Fleet.step, Fleet.abandonAcquire]
      split
      next => exact h.setHolder i hevent
      next => exact h
  | inside i event =>
      simp only [Fleet.step]
      split
      next stamped hstamp => exact h.drive hwrap i (eventOnly_stamp hstamp)
      next => exact h
  | dispatch i call clock =>
      simp only [Fleet.step, Fleet.dispatch]
      split
      next m _ =>
        split
        next =>
          have hdriven : FleetOnly P (f.drive i (.dispatch call ⟨clock, f.now⟩)) := h.drive hwrap i trivial
          exact ⟨hdriven.sessions, forall_mem_append h.messages replyOnly_none⟩
        next => exact h
      next => exact h
  | execute n ctx =>
      simp only [Fleet.step, Fleet.execute]
      split
      next msg _ =>
        split
        next => exact h
        next => exact ⟨h.sessions, forall_mem_set h.messages (replyOnly_some (hexec _ _))⟩
      next => exact h
  | deliver n =>
      simp only [Fleet.step, Fleet.deliver]
      split
      next session call _ _ reply hn =>
        exact h.drive hwrap session (h.messages _ (List.mem_of_getElem? hn) reply rfl)
      next => exact h
  | abandon n err =>
      simp only [Fleet.step, Fleet.abandon]
      split
      next msg _ => exact h.drive hwrap msg.session (silent_ofErr hevent)
      next => exact h

end Fleet

/-- An error that a client or a handle of the fleet has returned: of an
acquisition, of a call or in a loss. -/
inductive Reported {σ : Type} (f : Fleet σ) : Error → Prop
  | acquisition {s : Session} {err : Error} (hs : s ∈ f.sessions) (hfailed : s.holder = .failed err) :
      Reported f err
  | call {i : Nat} {m : Machine} {op : Op} {err : Error} (hm : f.machine i = some m)
      (hcall : ⟨op, .returned (some err)⟩ ∈ m.calls) : Reported f err
  | loss {i : Nat} {m : Machine} {loss : Loss} (hm : f.machine i = some m)
      (hloss : .exited (some loss) ∈ m.renewers) : Reported f loss.err

theorem FleetOnly.reported {σ : Type} {P : Error → Prop} {f : Fleet σ} (h : FleetOnly P f) {err : Error}
    (hr : Reported f err) : P err := by
  cases hr with
  | acquisition hs hfailed =>
      have hholder := (h.sessions _ hs).2
      rw [hfailed] at hholder
      exact hholder
  | call hm hcall => exact (h.machine hm).calls _ hcall err rfl
  | loss hm hloss => exact (h.machine hm).renewers _ hloss _ rfl

end GoLease.Redaction
