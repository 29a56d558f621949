import GoLease.Capacity.Site

namespace GoLease.Capacity

open Lifecycle

/-- A call of Acquire, from its attempt to reserve a waiter slot on. -/
inductive Waiter
  | rejected
  | reserved
  | returned
  deriving DecidableEq, Repr

/-- A call of Stop on a renewer of a handle: waiting or returned. -/
structure Stop where
  site : Nat
  renewer : Nat
  result : Option (Option Error)

/-- A client with its two channels of slots, and everything made from it. -/
structure Client where
  maxWaiters : Nat
  maxManaged : Nat
  waiters : Nat
  slots : Nat
  acquires : List Waiter
  sites : List Site
  stops : List Stop

/-- The environment chooses contexts, sleeper and backend results; a handle is
obtained from TryAcquire or with the return of Acquire. -/
inductive Event
  | acquire
  | acquireReturn (call : Nat) (handle : Option (Policy × Record × Reading))
  | tryAcquired (policy : Policy) (record : Record) (started : Reading)
  | startManaged (site : Nat) (reading : Reading)
  | atSite (site : Nat) (event : Site.Event)
  | stop (site renewer : Nat)
  | stopDone (stop : Nat)
  | stopCanceled (stop : Nat)

namespace Client

def new (maxWaiters maxManaged : Nat) : Client := ⟨maxWaiters, maxManaged, 0, 0, [], [], []⟩

variable (c : Client)

def acquire : Client :=
  if c.waiters < c.maxWaiters then
    { c with waiters := c.waiters + 1, acquires := c.acquires ++ [.reserved] }
  else { c with acquires := c.acquires ++ [.rejected] }

def addHandle (policy : Policy) (record : Record) (started : Reading) : Client :=
  { c with sites := c.sites ++ [.new policy record started] }

/-- The deferred receive blocks while no slot is taken. -/
def acquireReturn (call : Nat) (handle : Option (Policy × Record × Reading)) : Client :=
  match c.acquires[call]? with
  | some .reserved =>
    if c.waiters = 0 then c
    else
      let c' := { c with waiters := c.waiters - 1, acquires := c.acquires.set call .returned }
      match handle with
      | some (policy, record, started) => c'.addHandle policy record started
      | none => c'
  | _ => c

/-- StartManaged takes a slot unless all are in use. -/
def startManaged (i : Nat) (reading : Reading) : Client :=
  match c.sites[i]? with
  | some site =>
    if site.locked.isSome then c
    else
      let site' := site.startManaged reading (c.slots < c.maxManaged)
      { c with
        slots := if site'.locked.isSome then c.slots + 1 else c.slots
        sites := c.sites.set i site' }
  | none => c

/-- The receive from the slots blocks while none is taken. -/
def returnSlot (i : Nat) (site : Site) : Client :=
  match site.locked with
  | some (.leaving _) =>
    if c.slots = 0 then c
    else { c with slots := c.slots - 1, sites := c.sites.set i site.returnSlot }
  | _ => c

def atSite (i : Nat) (event : Site.Event) : Client :=
  match c.sites[i]? with
  | some site =>
    match event with
    | .returnSlot => c.returnSlot i site
    | _ => { c with sites := c.sites.set i (site.step event) }
  | none => c

def managed (i renewer : Nat) : Option Managed := do (← c.sites[i]?).managed[renewer]?

/-- Stop cancels the renewal and waits for done or for its own context. -/
def stopDone (n : Nat) : Client :=
  match c.stops[n]? with
  | some ⟨i, renewer, none⟩ =>
    match c.managed i renewer with
    | some g => if g.doneCloses = 0 then c else { c with stops := c.stops.set n ⟨i, renewer, some none⟩ }
    | none => c
  | _ => c

def stopCanceled (n : Nat) : Client :=
  match c.stops[n]? with
  | some ⟨i, renewer, none⟩ =>
    { c with stops := c.stops.set n ⟨i, renewer, some (some (wrap .errCanceled "managed stop"))⟩ }
  | _ => c

def step : Event → Client
  | .acquire => c.acquire
  | .acquireReturn call handle => c.acquireReturn call handle
  | .tryAcquired policy record started => c.addHandle policy record started
  | .startManaged i reading => c.startManaged i reading
  | .atSite i event => c.atSite i event
  | .stop i renewer => { c with stops := c.stops ++ [⟨i, renewer, none⟩] }
  | .stopDone n => c.stopDone n
  | .stopCanceled n => c.stopCanceled n

end Client

end GoLease.Capacity
