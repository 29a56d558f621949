import GoLease.Client
import GoLease.Lifecycle

namespace GoLease

open Lifecycle

/-- The client side of an acquisition. -/
inductive Holder
  | waiting
  | failed (err : Error)
  | holding (machine : Machine)
  deriving DecidableEq, Repr

/-- One attempt to acquire, from its dispatch by TryAcquire or by an iteration
of Acquire to the handle it may yield. The store may execute an attempt that
its client has already given up. -/
structure Session where
  key : Key
  owner : Bytes
  policy : Policy.Accepted
  started : Reading
  reply : Option Reply
  holder : Holder

/-- A remote call of a handle, from its dispatch on. The client may give up
waiting before or after the store executes it. -/
structure Message where
  session : Nat
  call : Nat
  wall : Int
  request : Request
  reply : Option Reply

/-- Any number of clients and handles over one store of any kind. The store's
clock and time.Now both read the current instant. -/
structure Fleet (σ : Type) where
  now : Int
  store : σ
  sessions : List Session
  messages : List Message

namespace Fleet

inductive Event
  | tick (elapsed : Nat)
  | dispatchAcquire (key : Key) (owner : Bytes) (policy : Policy.Accepted) (clock : Int)
  | executeAcquire (session : Nat) (ctx : Ctx)
  | completeAcquire (session : Nat)
  | abandonAcquire (session : Nat) (err : Error)
  | inside (session : Nat) (event : Lifecycle.Event)
  | dispatch (session call : Nat) (clock : Int)
  | execute (message : Nat) (ctx : Ctx)
  | deliver (message : Nat)
  | abandon (message : Nat) (err : Error)

/-- The steps of a handle that involve no backend, with the injected reading
as given and the real one as it is now. -/
def stamp (now : Int) : Lifecycle.Event → Option Lifecycle.Event
  | .state reading => some (.state ⟨reading.clock, now⟩)
  | .invoke op reading => some (.invoke op ⟨reading.clock, now⟩)
  | .finish call reading => some (.finish call ⟨reading.clock, now⟩)
  | .startManaged reading slot => some (.startManaged ⟨reading.clock, now⟩ slot)
  | .wake renewer err => some (.wake renewer err)
  | .renew renewer reading => some (.renew renewer ⟨reading.clock, now⟩)
  | .resume renewer => some (.resume renewer)
  | .lose renewer reading => some (.lose renewer ⟨reading.clock, now⟩)
  | .exit renewer => some (.exit renewer)
  | .dispatch _ _ | .reply _ _ => none

variable {σ : Type}

def start (now : Int) (store : σ) : Fleet σ := ⟨now, store, [], []⟩

variable (exec : σ → Call → σ × Reply) (f : Fleet σ)

def machine (session : Nat) : Option Machine :=
  match f.sessions[session]? with
  | some ⟨_, _, _, _, _, .holding m⟩ => some m
  | _ => none

def setHolder (session : Nat) (holder : Holder) : Fleet σ :=
  match f.sessions[session]? with
  | some s => { f with sessions := f.sessions.set session { s with holder } }
  | none => f

/-- A step of one handle. -/
def drive (session : Nat) (event : Lifecycle.Event) : Fleet σ :=
  match f.machine session with
  | some m => f.setHolder session (.holding (m.step event))
  | none => f

def executeAcquire (session : Nat) (ctx : Ctx) : Fleet σ :=
  match f.sessions[session]? with
  | some s =>
    if s.reply.isSome then f
    else
      let result := exec f.store ⟨f.now, ctx, .tryAcquire s.key s.owner s.policy.1.ttl.toInt⟩
      { f with
        store := result.1
        sessions := f.sessions.set session { s with reply := some result.2 } }
  | none => f

def completeAcquire (session : Nat) : Fleet σ :=
  match f.sessions[session]? with
  | some ⟨key, owner, policy, started, some ⟨record, none⟩, .waiting⟩ =>
    match Client.accept key owner policy.1 started record with
    | .ok handle => f.setHolder session (.holding (initial handle))
    | .error err => f.setHolder session (.failed err)
  | some ⟨_, _, _, _, some ⟨_, some err⟩, .waiting⟩ => f.setHolder session (.failed err)
  | _ => f

def abandonAcquire (session : Nat) (err : Error) : Fleet σ :=
  match f.sessions[session]? with
  | some ⟨_, _, _, _, _, .waiting⟩ => f.setHolder session (.failed err)
  | _ => f

def dispatch (session call : Nat) (clock : Int) : Fleet σ :=
  match f.machine session with
  | some m =>
    match m.calls[call]? with
    | some ⟨op, .reserved record⟩ =>
      { f.drive session (.dispatch call ⟨clock, f.now⟩) with
        messages := f.messages ++
          [⟨session, call, f.now, op.request m.handle.policy record, none⟩] }
    | _ => f
  | none => f

def execute (message : Nat) (ctx : Ctx) : Fleet σ :=
  match f.messages[message]? with
  | some msg =>
    if msg.reply.isSome then f
    else
      let result := exec f.store ⟨f.now, ctx, msg.request⟩
      { f with
        store := result.1
        messages := f.messages.set message { msg with reply := some result.2 } }
  | none => f

def deliver (message : Nat) : Fleet σ :=
  match f.messages[message]? with
  | some ⟨session, call, _, _, some reply⟩ => f.drive session (.reply call reply)
  | _ => f

def abandon (message : Nat) (err : Error) : Fleet σ :=
  match f.messages[message]? with
  | some msg => f.drive msg.session (.reply msg.call (.ofErr (some err)))
  | none => f

def step : Event → Fleet σ
  | .tick elapsed => { f with now := f.now + elapsed }
  | .dispatchAcquire key owner policy clock =>
    { f with sessions := f.sessions ++ [⟨key, owner, policy, ⟨clock, f.now⟩, none, .waiting⟩] }
  | .executeAcquire session ctx => f.executeAcquire exec session ctx
  | .completeAcquire session => f.completeAcquire session
  | .abandonAcquire session err => f.abandonAcquire session err
  | .inside session event =>
    match stamp f.now event with
    | some event => f.drive session event
    | none => f
  | .dispatch session call clock => f.dispatch session call clock
  | .execute message ctx => f.execute exec message ctx
  | .deliver message => f.deliver message
  | .abandon message err => f.abandon message err

/-- No Release of this handle is on its way to the store or past it. -/
def Unreleased (session : Nat) : Prop :=
  ∀ msg ∈ f.messages, msg.session = session → ∀ record, msg.request ≠ .release record

/-- State() of this handle returns active, whatever the injected clock reads. -/
def Admits (i : Nat) (m : Machine) : Prop :=
  f.machine i = some m ∧ ∃ clock, (m.handle.observe ⟨clock, f.now⟩).state = .active

end Fleet

end GoLease
