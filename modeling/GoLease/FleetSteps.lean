import GoLease.Fleet
import GoLease.Pool

namespace GoLease.Fleet

open Lifecycle Pool

variable {σ : Type} {exec : σ → Call → σ × Reply} {f f' : Fleet σ} {i : Nat} {m : Machine}

theorem holding_of_machine (h : f.machine i = some m) :
    ∃ s, f.sessions[i]? = some s ∧ s.holder = .holding m := by
  unfold Fleet.machine at h
  split at h
  next hs => exact ⟨_, hs, by rw [Option.some.inj h]⟩
  next => cases h

theorem machine_of_holding {s : Session} (hi : f.sessions[i]? = some s) (hholder : s.holder = .holding m) :
    f.machine i = some m := by
  obtain ⟨key, owner, policy, started, reply, holder⟩ := s
  cases hholder
  simp only [Fleet.machine, hi]

/-- A session is replaced by one that holds the same handle, if it is the one
that is watched. -/
theorem machine_set {j : Nat} {s own : Session} (hown : f.sessions[i]? = some own)
    (hholding : own.holder = .holding m) (hsessions : f'.sessions = f.sessions.set j s)
    (hsame : j = i → s.holder = own.holder) : f'.machine i = some m := by
  by_cases hji : j = i
  · subst hji
    refine machine_of_holding ?_ ((hsame rfl).trans hholding)
    rw [hsessions]
    exact getElem?_set_of_some hown s
  · refine machine_of_holding ?_ hholding
    rw [hsessions, List.getElem?_set_ne hji]
    exact hown

/-- The events that take a step of one handle, and the messages they leave. -/
inductive Drives (f : Fleet σ) (i : Nat) (m : Machine) :
    Fleet.Event → Lifecycle.Event → List Message → Prop
  | inside {event stamped : Lifecycle.Event} (hstamp : Fleet.stamp f.now event = some stamped) :
      Drives f i m (.inside i event) stamped f.messages
  | dispatch {call : Nat} {op : Op} {record : Record} (clock : Int)
      (hcall : m.calls[call]? = some ⟨op, .reserved record⟩) :
      Drives f i m (.dispatch i call clock) (.dispatch call ⟨clock, f.now⟩)
        (f.messages ++ [⟨i, call, f.now, op.request m.handle.policy record, none⟩])
  | deliver {n : Nat} {msg : Message} {reply : Reply} (hn : f.messages[n]? = some msg)
      (hreply : msg.reply = some reply) (hsession : msg.session = i) :
      Drives f i m (.deliver n) (.reply msg.call reply) f.messages
  | abandon {n : Nat} {msg : Message} (err : Error) (hn : f.messages[n]? = some msg)
      (hsession : msg.session = i) :
      Drives f i m (.abandon n err) (.reply msg.call (.ofErr (some err))) f.messages

/-- Everything a step of a fleet can do. -/
inductive Moved (exec : σ → Call → σ × Reply) (f : Fleet σ) : Fleet.Event → Fleet σ → Prop
  | kept (event : Fleet.Event) : Moved exec f event f
  | ticked (elapsed : Nat) : Moved exec f (.tick elapsed) { f with now := f.now + elapsed }
  | asked (key : Key) (owner : Bytes) (policy : Policy.Accepted) (clock : Int) :
      Moved exec f (.dispatchAcquire key owner policy clock)
        { f with sessions := f.sessions ++ [⟨key, owner, policy, ⟨clock, f.now⟩, none, .waiting⟩] }
  | granted {i : Nat} {s : Session} (ctx : Ctx) (hi : f.sessions[i]? = some s) (hnone : s.reply = none) :
      Moved exec f (.executeAcquire i ctx)
        { f with
          store := (exec f.store ⟨f.now, ctx, .tryAcquire s.key s.owner s.policy.1.ttl.toInt⟩).1
          sessions := f.sessions.set i { s with
            reply := some (exec f.store ⟨f.now, ctx, .tryAcquire s.key s.owner s.policy.1.ttl.toInt⟩).2 } }
  | opened {i : Nat} {s : Session} {record : Record} {handle : Handle} (hi : f.sessions[i]? = some s)
      (hreply : s.reply = some ⟨record, none⟩) (hwaiting : s.holder = .waiting)
      (haccept : Client.accept s.key s.owner s.policy.1 s.started record = .ok handle) :
      Moved exec f (.completeAcquire i)
        { f with sessions := f.sessions.set i { s with holder := .holding (initial handle) } }
  | failed {i : Nat} {s : Session} (event : Fleet.Event) (err : Error) (hi : f.sessions[i]? = some s)
      (hwaiting : s.holder = .waiting) :
      Moved exec f event { f with sessions := f.sessions.set i { s with holder := .failed err } }
  | driven {i : Nat} {s : Session} {m : Machine} {event : Fleet.Event} {inner : Lifecycle.Event}
      {messages : List Message} (hi : f.sessions[i]? = some s) (hholder : s.holder = .holding m)
      (hd : Drives f i m event inner messages) :
      Moved exec f event
        { f with sessions := f.sessions.set i { s with holder := .holding (m.step inner) }, messages }
  | served {n : Nat} {msg : Message} (ctx : Ctx) (hn : f.messages[n]? = some msg) (hnone : msg.reply = none) :
      Moved exec f (.execute n ctx)
        { f with
          store := (exec f.store ⟨f.now, ctx, msg.request⟩).1
          messages := f.messages.set n { msg with
            reply := some (exec f.store ⟨f.now, ctx, msg.request⟩).2 } }

theorem setHolder_eq {s : Session} (hi : f.sessions[i]? = some s) (holder : Holder) :
    f.setHolder i holder = { f with sessions := f.sessions.set i { s with holder } } := by
  simp only [Fleet.setHolder, hi]

theorem drive_moved {event : Fleet.Event} {inner : Lifecycle.Event}
    (hd : ∀ m, f.machine i = some m → Drives f i m event inner f.messages) :
    Moved exec f event (f.drive i inner) := by
  unfold Fleet.drive
  split
  next m hm =>
    obtain ⟨s, hi, hholder⟩ := holding_of_machine hm
    rw [setHolder_eq hi]
    exact .driven hi hholder (hd m hm)
  next => exact .kept _

theorem step_moved (event : Fleet.Event) : Moved exec f event (f.step exec event) := by
  cases event with
  | tick elapsed => exact .ticked elapsed
  | dispatchAcquire key owner policy clock => exact .asked key owner policy clock
  | executeAcquire i ctx =>
      simp only [Fleet.step, Fleet.executeAcquire]
      split
      next s hi =>
        split
        next => exact .kept _
        next hnone => exact .granted ctx hi (by simpa using hnone)
      next => exact .kept _
  | completeAcquire i =>
      simp only [Fleet.step, Fleet.completeAcquire]
      split
      next hi =>
        split
        next handle haccept =>
          rw [setHolder_eq hi]
          exact .opened hi rfl rfl haccept
        next err _ =>
          rw [setHolder_eq hi]
          exact .failed _ err hi rfl
      next err hi =>
        rw [setHolder_eq hi]
        exact .failed _ err hi rfl
      next => exact .kept _
  | abandonAcquire i err =>
      simp only [Fleet.step, Fleet.abandonAcquire]
      split
      next hi =>
        rw [setHolder_eq hi]
        exact .failed _ err hi rfl
      next => exact .kept _
  | inside i event =>
      simp only [Fleet.step]
      split
      next stamped hstamp => exact drive_moved (fun m _ => .inside hstamp)
      next => exact .kept _
  | dispatch i call clock =>
      simp only [Fleet.step, Fleet.dispatch]
      split
      next m hm =>
        split
        next op record hcall =>
          obtain ⟨s, hi, hholder⟩ := holding_of_machine hm
          simp only [Fleet.drive, hm, setHolder_eq hi]
          exact .driven hi hholder (.dispatch clock hcall)
        next => exact .kept _
      next => exact .kept _
  | execute n ctx =>
      simp only [Fleet.step, Fleet.execute]
      split
      next msg hn =>
        split
        next => exact .kept _
        next hnone => exact .served ctx hn (by simpa using hnone)
      next => exact .kept _
  | deliver n =>
      simp only [Fleet.step, Fleet.deliver]
      split
      next hn => exact drive_moved (fun m _ => .deliver hn rfl rfl)
      next => exact .kept _
  | abandon n err =>
      simp only [Fleet.step, Fleet.abandon]
      split
      next msg hn => exact drive_moved (fun m _ => .abandon err hn rfl)
      next => exact .kept _

end GoLease.Fleet
