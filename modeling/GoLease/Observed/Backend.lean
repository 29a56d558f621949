import GoLease.Traces
import GoLease.Valkey.Store

namespace GoLease.Observed

inductive Operation
  | acquire
  | renew
  | validate
  | release
  deriving DecidableEq, Repr

inductive Outcome
  | success
  | contended
  | stale
  | canceled
  | unavailable
  | ambiguous
  | invalid
  deriving DecidableEq, Repr

def classifyOutcome : Option Error → Outcome
  | none => .success
  | some err =>
    if err.is .errContended || err.is .errTimeout then .contended
    else if err.is .errStaleOwner || err.is .errLost then .stale
    else if err.is .errCanceled then .canceled
    else if err.is .errAmbiguousOutcome then .ambiguous
    else if err.is .errInvalidState then .invalid
    else .unavailable

structure Event where
  time : Int
  operation : Operation
  outcome : Outcome
  keyHash : Bytes
  deriving DecidableEq, Repr

/-- The label that the decorated method hands to emit. -/
def Operation.of : Request → Operation
  | .tryAcquire .. => .acquire
  | .renew .. => .renew
  | .validate _ => .validate
  | .release _ => .release

/-- The event that emit builds after a call, with sha256 as a parameter. -/
def describe (sha256 : Bytes → Bytes) (time : Int) (request : Request) (err : Option Error) : Event :=
  ⟨time, .of request, classifyOutcome err,
    Valkey.encodeToString ((sha256 request.key.value).take 16)⟩

/-- The registrations of a decorated backend, one slot for each observer. -/
def newObservedBackend {β κ ω : Type} (backend : Option β) (clock : Option κ)
    (observers : List (Option ω)) : Except Error (List ω) :=
  if backend.isNone ∨ clock.isNone ∨ observers.length = 0 ∨ observers.length > 16 then
    .error (wrap .errInvalidState "observation options")
  else if observers.all Option.isSome then .ok (observers.filterMap id)
  else .error (wrap .errInvalidState "nil observer")

/-- Where a call of the decorated backend stands: in the wrapped backend, back
from it, in the loop of emit at a slot, or returned. -/
inductive Stage
  | calling
  | replied (reply : Reply)
  | emitting (event : Event) (slot : Nat) (reply : Reply)
  | returned (reply : Reply)
  deriving DecidableEq, Repr

/-- What the wrapped backend has returned to the call. -/
def Stage.reply? : Stage → Option Reply
  | .calling => none
  | .replied reply | .emitting _ _ reply | .returned reply => some reply

structure Caller where
  request : Request
  stage : Stage
  deriving DecidableEq, Repr

inductive Progress
  | spawned
  | observing
  | observed
  | exited
  deriving DecidableEq, Repr

/-- A goroutine of emit: the callback and then the receive from its slot. -/
structure Goroutine where
  slot : Nat
  event : Event
  progress : Progress
  deriving DecidableEq, Repr

/-- One select of emit, with the branch it took. -/
structure Offer where
  caller : Nat
  slot : Nat
  event : Event
  taken : Bool
  deriving DecidableEq, Repr

/-- A decorated backend with its concurrent callers. A slot is true while its
channel of capacity one is full. The history has the calls of the wrapped
backend, the selects of emit and the callbacks in the order they began. -/
structure System (σ : Type) where
  store : σ
  callers : List Caller
  slots : List Bool
  goroutines : List Goroutine
  served : List (Nat × Call)
  offers : List Offer
  callbacks : List (Nat × Event)

inductive Action
  | invoke (request : Request)
  | execute (caller : Nat) (now : Int) (ctx : Ctx)
  | advance (caller : Nat) (time : Int)
  | schedule (goroutine : Nat)
  deriving DecidableEq, Repr

section Semantics

variable {σ : Type} (exec : σ → Call → σ × Reply) (sha256 : Bytes → Bytes) (s : System σ)

def System.execute (caller : Nat) (now : Int) (ctx : Ctx) : System σ :=
  match s.callers[caller]? with
  | some ⟨request, .calling⟩ =>
    let result := exec s.store ⟨now, ctx, request⟩
    { s with
      store := result.1
      served := s.served ++ [(caller, ⟨now, ctx, request⟩)]
      callers := s.callers.set caller ⟨request, .replied result.2⟩ }
  | _ => s

/-- emit reads the clock, and then sends to one slot after the other without
waiting for any. -/
def System.advance (caller : Nat) (time : Int) : System σ :=
  match s.callers[caller]? with
  | some ⟨request, .replied reply⟩ =>
    let event := describe sha256 time request reply.err
    { s with callers := s.callers.set caller ⟨request, .emitting event 0 reply⟩ }
  | some ⟨request, .emitting event slot reply⟩ =>
    match s.slots[slot]? with
    | some false =>
      { s with
        slots := s.slots.set slot true
        goroutines := s.goroutines ++ [⟨slot, event, .spawned⟩]
        offers := s.offers ++ [⟨caller, slot, event, true⟩]
        callers := s.callers.set caller ⟨request, .emitting event (slot + 1) reply⟩ }
    | some true =>
      { s with
        offers := s.offers ++ [⟨caller, slot, event, false⟩]
        callers := s.callers.set caller ⟨request, .emitting event (slot + 1) reply⟩ }
    | none => { s with callers := s.callers.set caller ⟨request, .returned reply⟩ }
  | _ => s

/-- A callback ends when Observe returns or panics. The receive of a goroutine
waits while its channel is empty. -/
def System.schedule (goroutine : Nat) : System σ :=
  match s.goroutines[goroutine]? with
  | some ⟨slot, event, .spawned⟩ =>
    { s with
      goroutines := s.goroutines.set goroutine ⟨slot, event, .observing⟩
      callbacks := s.callbacks ++ [(slot, event)] }
  | some ⟨slot, event, .observing⟩ =>
    { s with goroutines := s.goroutines.set goroutine ⟨slot, event, .observed⟩ }
  | some ⟨slot, event, .observed⟩ =>
    match s.slots[slot]? with
    | some true =>
      { s with
        slots := s.slots.set slot false
        goroutines := s.goroutines.set goroutine ⟨slot, event, .exited⟩ }
    | _ => s
  | _ => s

def System.step : Action → System σ
  | .invoke request => { s with callers := s.callers ++ [⟨request, .calling⟩] }
  | .execute caller now ctx => s.execute exec caller now ctx
  | .advance caller time => s.advance sha256 caller time
  | .schedule goroutine => s.schedule goroutine

def start (store : σ) (observers : Nat) : System σ :=
  ⟨store, [], List.replicate observers false, [], [], [], []⟩

end Semantics

section Inversion

variable {σ : Type} {exec : σ → Call → σ × Reply} {sha256 : Bytes → Bytes} {s : System σ}

/-- What a step can do, with the guard of each branch. -/
inductive Step (exec : σ → Call → σ × Reply) (sha256 : Bytes → Bytes) (s : System σ) :
    Action → System σ → Prop
  | blocked (action : Action) (hwait : ∀ i time, action = .advance i time →
      ∀ caller, s.callers[i]? = some caller → caller.stage = .calling ∨ ∃ reply, caller.stage = .returned reply) :
      Step exec sha256 s action s
  | invoked (request : Request) :
      Step exec sha256 s (.invoke request) { s with callers := s.callers ++ [⟨request, .calling⟩] }
  | served {i : Nat} {now : Int} {ctx : Ctx} {request : Request}
      (hi : s.callers[i]? = some ⟨request, .calling⟩) :
      Step exec sha256 s (.execute i now ctx)
        { s with
          store := (exec s.store ⟨now, ctx, request⟩).1
          served := s.served ++ [(i, ⟨now, ctx, request⟩)]
          callers := s.callers.set i ⟨request, .replied (exec s.store ⟨now, ctx, request⟩).2⟩ }
  | described {i : Nat} {time : Int} {request : Request} {reply : Reply}
      (hi : s.callers[i]? = some ⟨request, .replied reply⟩) :
      Step exec sha256 s (.advance i time)
        { s with
          callers := s.callers.set i ⟨request, .emitting (describe sha256 time request reply.err) 0 reply⟩ }
  | taken {i : Nat} {time : Int} {request : Request} {event : Event} {slot : Nat} {reply : Reply}
      (hi : s.callers[i]? = some ⟨request, .emitting event slot reply⟩) (hfree : s.slots[slot]? = some false) :
      Step exec sha256 s (.advance i time)
        { s with
          slots := s.slots.set slot true
          goroutines := s.goroutines ++ [⟨slot, event, .spawned⟩]
          offers := s.offers ++ [⟨i, slot, event, true⟩]
          callers := s.callers.set i ⟨request, .emitting event (slot + 1) reply⟩ }
  | dropped {i : Nat} {time : Int} {request : Request} {event : Event} {slot : Nat} {reply : Reply}
      (hi : s.callers[i]? = some ⟨request, .emitting event slot reply⟩) (hbusy : s.slots[slot]? = some true) :
      Step exec sha256 s (.advance i time)
        { s with
          offers := s.offers ++ [⟨i, slot, event, false⟩]
          callers := s.callers.set i ⟨request, .emitting event (slot + 1) reply⟩ }
  | returned {i : Nat} {time : Int} {request : Request} {event : Event} {slot : Nat} {reply : Reply}
      (hi : s.callers[i]? = some ⟨request, .emitting event slot reply⟩) (hend : s.slots[slot]? = none) :
      Step exec sha256 s (.advance i time)
        { s with callers := s.callers.set i ⟨request, .returned reply⟩ }
  | began {g slot : Nat} {event : Event} (hg : s.goroutines[g]? = some ⟨slot, event, .spawned⟩) :
      Step exec sha256 s (.schedule g)
        { s with
          goroutines := s.goroutines.set g ⟨slot, event, .observing⟩
          callbacks := s.callbacks ++ [(slot, event)] }
  | ended {g slot : Nat} {event : Event} (hg : s.goroutines[g]? = some ⟨slot, event, .observing⟩) :
      Step exec sha256 s (.schedule g)
        { s with goroutines := s.goroutines.set g ⟨slot, event, .observed⟩ }
  | drained {g slot : Nat} {event : Event} (hg : s.goroutines[g]? = some ⟨slot, event, .observed⟩)
      (hfull : s.slots[slot]? = some true) :
      Step exec sha256 s (.schedule g)
        { s with
          slots := s.slots.set slot false
          goroutines := s.goroutines.set g ⟨slot, event, .exited⟩ }

theorem execute_step (i : Nat) (now : Int) (ctx : Ctx) :
    Step exec sha256 s (.execute i now ctx) (s.execute exec i now ctx) := by
  unfold System.execute
  split
  next request hi => exact .served hi
  next => exact .blocked _ (by simp)

theorem advance_step (i : Nat) (time : Int) :
    Step exec sha256 s (.advance i time) (s.advance sha256 i time) := by
  unfold System.advance
  split
  next request reply hi => exact .described hi
  next request event slot reply hi =>
    split
    next hfree => exact .taken hi hfree
    next hbusy => exact .dropped hi hbusy
    next hend => exact .returned hi hend
  next hreplied hemitting =>
    apply Step.blocked
    intro j t heq caller hj
    cases heq
    obtain ⟨request, stage⟩ := caller
    cases stage with
    | calling => exact .inl rfl
    | replied reply => exact absurd hj (hreplied request reply)
    | emitting event slot reply => exact absurd hj (hemitting request event slot reply)
    | returned reply => exact .inr ⟨reply, rfl⟩

theorem schedule_step (g : Nat) : Step exec sha256 s (.schedule g) (s.schedule g) := by
  unfold System.schedule
  split
  next slot event hg => exact .began hg
  next slot event hg => exact .ended hg
  next slot event hg =>
    split
    next hfull => exact .drained hg hfull
    next => exact .blocked _ (by simp)
  next => exact .blocked _ (by simp)

theorem step_step (action : Action) : Step exec sha256 s action (s.step exec sha256 action) := by
  cases action with
  | invoke request => exact .invoked request
  | execute i now ctx => exact execute_step i now ctx
  | advance i time => exact advance_step i time
  | schedule g => exact schedule_step g

end Inversion

end GoLease.Observed
