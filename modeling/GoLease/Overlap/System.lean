import GoLease.Client
import GoLease.Memory.Superseded
import GoLease.Orchestration.Run

namespace GoLease.Overlap

open Orchestration (Run)
open Lifecycle Traces Pool Memory Memory.Store Memory.History Memory.Superseded

/-- A call that the store has executed, and the run that made it. -/
structure Entry where
  who : Option Nat
  call : Call
  reply : Reply

/-- An attempt of Acquire with the store's answer and its position in the log. -/
structure Attempt where
  owner : Bytes
  started : Reading
  position : Nat
  reply : Reply

/-- A call of Run, with the positions at which the store executed the attempt
that gave it its handle and its Release. -/
structure Member where
  key : Key
  run : Run
  attempt : Option Attempt
  acquiredAt : Option Nat
  releasedAt : Option Nat

/-- Any number of calls of Run and other clients over one memory store, and
everything the store has executed. -/
structure System where
  store : Memory.Store
  log : List Entry
  members : List Member

/-- Every call that the store executes reads whatever clock it likes, and meets
a context in whatever state. -/
inductive Event
  | other (call : Call)
  | launch (policy : Policy) (key : Key)
  | tryAcquire (i : Nat) (owner : Bytes) (started : Reading) (now : Int) (ctx : Ctx)
  | accept (i : Nat)
  | retry (i : Nat)
  | giveUp (i : Nat) (err : Error)
  | inside (i : Nat) (event : Orchestration.Event)
  | execute (i call : Nat) (now : Int) (ctx : Ctx)

/-- The steps of a run that do not wait for the store. -/
def isLocal : Orchestration.Event → Bool
  | .acquired _ | .atSite (.inside (.reply _ _)) => false
  | _ => true

namespace Member

variable (m : Member)

/-- Acquire turns a successful attempt into a handle or an error of its own. -/
def accept : Member :=
  match m.attempt with
  | some ⟨owner, started, position, ⟨record, none⟩⟩ =>
    match Client.accept m.key owner m.run.policy started record with
    | .ok _ =>
      { m with
        run := m.run.step (.acquired (.ok (record, started)))
        attempt := none
        acquiredAt := some position }
    | .error err => { m with run := m.run.step (.acquired (.error err)), attempt := none }
  | _ => m

/-- The last attempt, if there was one, was answered with an error. -/
def failing : Bool :=
  match m.attempt with
  | some attempt => attempt.reply.err.isSome
  | none => true

def retry : Member := if m.failing then { m with attempt := none } else m

def giveUp (err : Error) : Member :=
  if m.failing then { m with run := m.run.step (.acquired (.error err)), attempt := none } else m

def inside (event : Orchestration.Event) : Member :=
  if isLocal event then { m with run := m.run.step event } else m

/-- The call that the run has sent to the store and that has no answer yet. -/
def sent (call : Nat) : Option (Op × Record) :=
  match m.run.site with
  | some site =>
    match site.machine.calls[call]? with
    | some ⟨op, .dispatched record _⟩ => some (op, record)
    | _ => none
  | none => none

end Member

namespace System

variable (s : System)

def serve (who : Option Nat) (call : Call) : System :=
  { s with store := (s.store.exec call).1, log := s.log ++ [⟨who, call, (s.store.exec call).2⟩] }

def update (i : Nat) (change : Member → Member) : System :=
  match s.members[i]? with
  | some m => { s with members := s.members.set i (change m) }
  | none => s

def tryAcquire (i : Nat) (owner : Bytes) (started : Reading) (now : Int) (ctx : Ctx) : System :=
  match s.members[i]? with
  | some m =>
    if m.run.phase = .acquiring ∧ m.attempt.isNone then
      let call : Call := ⟨now, ctx, .tryAcquire m.key owner m.run.policy.ttl.toInt⟩
      { s.serve (some i) call with
        members := s.members.set i
          { m with attempt := some ⟨owner, started, s.log.length, (s.store.exec call).2⟩ } }
    else s
  | none => s

def execute (i call : Nat) (now : Int) (ctx : Ctx) : System :=
  match s.members[i]? with
  | some m =>
    match m.sent call with
    | some (op, record) =>
      let request : Call := ⟨now, ctx, op.request m.run.policy record⟩
      { s.serve (some i) request with
        members := s.members.set i { m with
          run := m.run.step (.atSite (.inside (.reply call (s.store.exec request).2)))
          releasedAt := if op = .release then some s.log.length else m.releasedAt } }
    | none => s
  | none => s

def step : Event → System
  | .other call => s.serve none call
  | .launch policy key =>
    { s with members := s.members ++ [⟨key, Orchestration.start policy, none, none, none⟩] }
  | .tryAcquire i owner started now ctx => s.tryAcquire i owner started now ctx
  | .accept i => s.update i Member.accept
  | .retry i => s.update i Member.retry
  | .giveUp i err => s.update i (fun m => m.giveUp err)
  | .inside i event => s.update i (fun m => m.inside event)
  | .execute i call now ctx => s.execute i call now ctx

end System

def start (store : Memory.Store) : System := ⟨store, [], []⟩

section Log

variable {maxKeys : Nat} {store : Memory.Store} {log : List Entry} {key : Key}

/-- The store before the call at this position of the log. -/
def stateAt (store : Memory.Store) (log : List Entry) (n : Nat) : Memory.Store :=
  run exec store ((log.take n).map Entry.call)

/-- The log is what the store has answered. -/
def Answered (store : Memory.Store) (log : List Entry) : Prop :=
  ∀ (n : Nat) entry, log[n]? = some entry → entry.reply = ((stateAt store log n).exec entry.call).2

theorem stateAt_succ {n : Nat} {entry : Entry} (h : log[n]? = some entry) :
    stateAt store log (n + 1) = ((stateAt store log n).exec entry.call).1 := by
  unfold stateAt
  rw [List.take_add_one, h, List.map_append, run_append]
  rfl

theorem stateAt_append {n : Nat} (hn : n ≤ log.length) (more : List Entry) :
    stateAt store (log ++ more) n = stateAt store log n := by
  unfold stateAt
  rw [List.take_append_of_le_length hn]

theorem fence_stateAt_le (hnew : new maxKeys = .ok store) {n k : Nat} (hle : n ≤ k) :
    (stateAt store log n).fence key ≤ (stateAt store log k).fence key := by
  obtain ⟨d, rfl⟩ := Nat.le.dest hle
  unfold stateAt
  rw [List.take_add, List.map_append, run_append]
  exact (run_fence_le (reachable_fence_le hnew key _) _).1

theorem fence_stateAt_max (hnew : new maxKeys = .ok store) (n : Nat) :
    (stateAt store log n).fence key ≤ maxUint64 := reachable_fence_le hnew key _

theorem Answered.concat (h : Answered store log) {entry : Entry}
    (he : entry.reply = ((stateAt store log log.length).exec entry.call).2) :
    Answered store (log ++ [entry]) := by
  intro n b hb
  rcases getElem?_concat hb with hb | ⟨rfl, rfl⟩
  · rw [stateAt_append (Nat.le_of_lt (List.getElem?_eq_some_iff.mp hb).1)]
    exact h n b hb
  · rw [stateAt_append (Nat.le_refl _)]
    exact he

/-- Between an acquisition and an acknowledged release with its token, nothing
else acquires the key. -/
theorem Answered.no_grant_between (h : Answered store log) (hnew : new maxKeys = .ok store)
    {a j r : Nat} {first between last : Entry} {owned : Record}
    (ha : log[a]? = some first) (hgrant : granted key (first.call, first.reply) = true)
    (hr : log[r]? = some last) (hrequest : last.call.request = .release owned)
    (hok : last.reply.err = none) (hkey : owned.key = key) (htoken : owned.token = first.reply.record.token)
    (hj : log[j]? = some between) (haj : a < j) (hjr : j < r) :
    granted key (between.call, between.reply) = false := by
  by_contra hne
  rw [Bool.not_eq_false] at hne
  rw [h a first ha] at hgrant htoken
  rw [h j between hj] at hne
  obtain ⟨_, _, _, hfirst⟩ := exec_granted (fence_stateAt_max hnew a) hgrant
  obtain ⟨_, _, hbelow, hnext⟩ := exec_granted (fence_stateAt_max hnew j) hne
  rw [← stateAt_succ ha] at hfirst
  have hrelease : (stateAt store log r).fence key = owned.token := by
    obtain ⟨who, ⟨now, ctx, request⟩, reply⟩ := last
    dsimp only at hrequest
    subst hrequest
    have hreply := h r _ hr
    dsimp only at hreply hok
    rw [hreply] at hok
    rw [← hkey]
    exact fence_of_release hok
  have hlow : (stateAt store log (a + 1)).fence key ≤ (stateAt store log j).fence key :=
    fence_stateAt_le hnew haj
  have hhigh : (stateAt store log (j + 1)).fence key ≤ (stateAt store log r).fence key :=
    fence_stateAt_le hnew hjr
  rw [stateAt_succ hj] at hhigh
  omega

end Log

end GoLease.Overlap
