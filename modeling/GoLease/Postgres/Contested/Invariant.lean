import GoLease.FleetSteps
import GoLease.Lossy.Calls
import GoLease.Postgres.Contested.Commits

namespace GoLease.Postgres.Contested

open Isolation (Server)
open Database Pool Lifecycle Coverage Truncation

section Refused

open Lossy

theorem run_unreachable {plan : Plan Backend} {err : Error} (hact : ∀ b, plan.act b = (b, .error err))
    (after : Ctx) (b : Backend) (h : (plan.decode after (.error err)).err ≠ none) :
    (plan.run after b).1 = b ∧ (plan.run after b).2.err ≠ none := by
  unfold Plan.run
  split
  next => exact ⟨rfl, Option.some_ne_none _⟩
  next =>
    rw [hact]
    exact ⟨rfl, h⟩

theorem refuse_spec (store : Store) (b : Backend) (call : Call) :
    (refuse store b call).1 = b ∧ (refuse store b call).2.err ≠ none := by
  obtain ⟨now, ctx, request⟩ := call
  rw [refuse, exec_postgresPlan]
  cases request with
  | tryAcquire | renew | validate | release =>
      refine run_unreachable (fun _ => rfl) ctx b ?_
      exact Option.some_ne_none _

end Refused

/-- What the server promises between two of its steps. Calls that never reach
it change nothing; its own steps are looked at one by one. -/
def contract (store : Store) (initial : Database) : Contract (refuse store) store.digest slack where
  ok b := Isolation.Inv (fun _ _ => True) initial b.server
  fence b := reached b.server.db
  backs b := Backs store b.server
  ok_exec {b} call hok _ := by
    rw [(refuse_spec store b call).1]
    exact hok
  fence_exec {b} call _ _ key := by
    rw [(refuse_spec store b call).1]
  acquired {b} call _ _ _ _ _ _ _ hreply := absurd (congrArg Reply.err hreply) (refuse_spec store b call).2
  renewed {b} call _ _ _ _ _ _ _ hreply := absurd hreply (refuse_spec store b call).2
  kept {b} call _ _ _ _ hback _ _ _ := by
    rw [(refuse_spec store b call).1]
    exact hback

section Links

variable (store : Store) (f : System)

/-- A statement at the server is the one that its sender asked for, and was sent
after the call began. -/
def Asked (ticket : Ticket) (asked : Statement) : Prop :=
  match ticket.origin with
  | .acquire i => ∃ s, f.sessions[i]? = some s ∧
      asked = statement store (.tryAcquire s.key s.owner s.policy.1.ttl.toInt) ∧
      millisecond ≤ s.policy.1.ttl.toInt ∧ s.started.wall ≤ ticket.sent
  | .call n => ∃ msg, f.messages[n]? = some msg ∧ asked = statement store msg.request ∧
      (∀ owned ttl, msg.request = .renew owned ttl → millisecond ≤ ttl) ∧ msg.wall ≤ ticket.sent
  | .cleanup => ∃ batch doomed, asked = .cleanup batch doomed

structure Attended (ticket : Ticket) (session : Isolation.Session) : Prop where
  asked : Asked store f ticket session.statement
  sent : ticket.sent ≤ f.now
  timed : Timed ticket.sent session

structure Sound (initial : Database) : Prop where
  coverage : Coverage.Inv (contract store initial) f
  tickets : f.store.tickets.length = f.store.server.sessions.length
  attended : ∀ (j : Nat) ticket session, f.store.tickets[j]? = some ticket →
    f.store.server.sessions[j]? = some session → Attended store f ticket session

/-- Attempts and messages keep what they ask for. -/
structure Follows (f f' : System) : Prop where
  now : f.now ≤ f'.now
  sessions : ∀ (i : Nat) s, f.sessions[i]? = some s → ∃ s', f'.sessions[i]? = some s' ∧ s'.key = s.key ∧
    s'.owner = s.owner ∧ s'.policy = s.policy ∧ s'.started = s.started
  messages : ∀ (n : Nat) msg, f.messages[n]? = some msg → ∃ msg', f'.messages[n]? = some msg' ∧
    msg'.request = msg.request ∧ msg'.wall = msg.wall

variable {store f} {f' : System}

theorem Asked.follow {ticket : Ticket} {asked : Statement} (h : Asked store f ticket asked)
    (hf : Follows f f') : Asked store f' ticket asked := by
  unfold Asked at h ⊢
  split at h
  next i _ =>
    obtain ⟨s, hi, rfl, hmin, hsent⟩ := h
    obtain ⟨s', hi', hkey, howner, hpolicy, hstarted⟩ := hf.sessions i s hi
    exact ⟨s', hi', by rw [hkey, howner, hpolicy], by rw [hpolicy]; exact hmin,
      by rw [hstarted]; exact hsent⟩
  next n _ =>
    obtain ⟨msg, hn, rfl, hmin, hsent⟩ := h
    obtain ⟨msg', hn', hrequest, hwall⟩ := hf.messages n msg hn
    exact ⟨msg', hn', by rw [hrequest], by rw [hrequest]; exact hmin, by rw [hwall]; exact hsent⟩
  next => exact h

theorem Attended.follow {ticket : Ticket} {session : Isolation.Session} (h : Attended store f ticket session)
    (hf : Follows f f') : Attended store f' ticket session :=
  ⟨h.asked.follow hf, Int.le_trans h.sent hf.now, h.timed⟩

section Client

/-- One attempt changes in its reply or its holder. -/
theorem sessions_set {i : Nat} {s new : Session} (hi : f.sessions[i]? = some s)
    (hnew : new.key = s.key ∧ new.owner = s.owner ∧ new.policy = s.policy ∧ new.started = s.started)
    (j : Nat) (t : Session) (hj : f.sessions[j]? = some t) :
    ∃ t', (f.sessions.set i new)[j]? = some t' ∧ t'.key = t.key ∧ t'.owner = t.owner ∧
      t'.policy = t.policy ∧ t'.started = t.started := by
  by_cases he : i = j
  · subst he
    rw [hi] at hj
    cases hj
    exact ⟨new, getElem?_set_of_some hi _, hnew⟩
  · exact ⟨t, (List.getElem?_set_ne he).trans hj, rfl, rfl, rfl, rfl⟩

theorem messages_set {n : Nat} {msg : Message} (hn : f.messages[n]? = some msg) (reply : Option Reply)
    (k : Nat) (other : Message) (hk : f.messages[k]? = some other) :
    ∃ msg', (f.messages.set n { msg with reply })[k]? = some msg' ∧ msg'.request = other.request ∧
      msg'.wall = other.wall := by
  by_cases he : n = k
  · subst he
    rw [hn] at hk
    cases hk
    exact ⟨_, getElem?_set_of_some hn _, rfl, rfl⟩
  · exact ⟨other, (List.getElem?_set_ne he).trans hk, rfl, rfl⟩

theorem sessions_same (i : Nat) (s : Session) (hi : f.sessions[i]? = some s) :
    ∃ s', f.sessions[i]? = some s' ∧ s'.key = s.key ∧ s'.owner = s.owner ∧ s'.policy = s.policy ∧
      s'.started = s.started := ⟨s, hi, rfl, rfl, rfl, rfl⟩

theorem messages_same (n : Nat) (msg : Message) (hn : f.messages[n]? = some msg) :
    ∃ msg', f.messages[n]? = some msg' ∧ msg'.request = msg.request ∧ msg'.wall = msg.wall :=
  ⟨msg, hn, rfl, rfl⟩

theorem messages_driven {i : Nat} {m : Machine} {event : Fleet.Event} {inner : Lifecycle.Event}
    {messages : List Message} (hd : Fleet.Drives f i m event inner messages) (n : Nat) (msg : Message)
    (hn : f.messages[n]? = some msg) :
    ∃ msg', messages[n]? = some msg' ∧ msg'.request = msg.request ∧ msg'.wall = msg.wall := by
  cases hd with
  | inside | deliver | abandon => exact ⟨msg, hn, rfl, rfl⟩
  | dispatch => exact ⟨msg, getElem?_append_of_some hn _, rfl, rfl⟩

/-- The clients never touch the server except through their statements. -/
theorem client_step (store : Store) (f : System) (event : Fleet.Event) :
    Follows f (f.step (refuse store) event) ∧ (f.step (refuse store) event).store = f.store := by
  have hm := @Fleet.step_moved _ (refuse store) f event
  generalize f.step (refuse store) event = f' at hm ⊢
  cases hm with
  | kept => exact ⟨⟨Int.le_refl _, sessions_same, messages_same⟩, rfl⟩
  | ticked elapsed => exact ⟨⟨by dsimp only; omega, sessions_same, messages_same⟩, rfl⟩
  | asked =>
      refine ⟨⟨Int.le_refl _, fun i s hi => ?_, messages_same⟩, rfl⟩
      exact ⟨s, getElem?_append_of_some hi _, rfl, rfl, rfl, rfl⟩
  | granted ctx hi hnone =>
      refine ⟨⟨Int.le_refl _, sessions_set hi ⟨rfl, rfl, rfl, rfl⟩, messages_same⟩, ?_⟩
      exact (refuse_spec store _ _).1
  | opened hi | failed event err hi =>
      exact ⟨⟨Int.le_refl _, sessions_set hi ⟨rfl, rfl, rfl, rfl⟩, messages_same⟩, rfl⟩
  | driven hi hholder hd =>
      exact ⟨⟨Int.le_refl _, sessions_set hi ⟨rfl, rfl, rfl, rfl⟩, messages_driven hd⟩, rfl⟩
  | served ctx hn hnone =>
      refine ⟨⟨Int.le_refl _, sessions_same, messages_set hn _⟩, ?_⟩
      exact (refuse_spec store _ _).1

theorem Sound.client {initial : Database} (h : Sound store f initial) (event : Fleet.Event) :
    Sound store (f.step (refuse store) event) initial := by
  obtain ⟨hfollows, hstore⟩ := client_step store f event
  refine ⟨h.coverage.step event, ?_, ?_⟩
  · rw [hstore]
    exact h.tickets
  · rw [hstore]
    exact fun j ticket session ht hs => (h.attended j ticket session ht hs).follow hfollows

end Client

section Submit

variable {Read : Nat → Clock → Prop} {initial : Database}

theorem inv_submit {s : Server} (h : Isolation.Inv Read initial s) (asked : Statement) :
    Isolation.Inv Read initial { s with sessions := s.sessions ++ [⟨asked, .waiting⟩] } := by
  have hold {i : Nat} {session : Isolation.Session} (hs : Isolation.Sound Read initial s i session) :
      Isolation.Sound Read initial { s with sessions := s.sessions ++ [⟨asked, .waiting⟩] } i session := by
    cases hs with
    | waiting => exact .waiting _
    | started hstatement hseen => exact .started hstatement hseen
    | fenced hseen ht => exact .fenced hseen ht
    | collecting hseen ho he hn hb hs => exact .collecting hseen ho he hn hb hs
    | idle htook => exact .idle htook
    | evaluated hsince hx ho hw hg hl => exact .evaluated hsince hx ho hw hg hl
    | returned htook => exact .returned htook
  have hexclusive {lock : Isolation.Session → Bool} (hl : Isolation.Exclusive s lock)
      (hwaiting : lock ⟨asked, .waiting⟩ = false) :
      Isolation.Exclusive { s with sessions := s.sessions ++ [⟨asked, .waiting⟩] } lock := by
    intro i j a b ha hb hne hp
    rcases getElem?_concat hb with hb | ⟨_, rfl⟩
    · rcases getElem?_concat ha with ha | ⟨_, rfl⟩
      · exact hl i j a b ha hb hne hp
      · rw [hwaiting] at hp
        cases hp
    · exact hwaiting
  refine ⟨h.replayed, ?_, ?_, ?_⟩
  · intro i session hi
    rcases getElem?_concat hi with hi | ⟨_, rfl⟩
    · exact hold (h.sound i session hi)
    · exact .waiting asked
  · exact fun digest => hexclusive (h.fences digest) (by cases asked <;> rfl)
  · exact fun digest => hexclusive (h.records digest) rfl

/-- A statement that only waits touches nothing. -/
theorem Sound.submit (h : Sound store f initial) {ticket : Ticket} {asked : Statement}
    (hasked : Asked store f ticket asked) (hsent : ticket.sent = f.now) :
    Sound store { f with store := f.store.submit ticket asked } initial := by
  have hfollows : Follows f { f with store := f.store.submit ticket asked } :=
    ⟨Int.le_refl _, sessions_same, messages_same⟩
  refine ⟨h.coverage.keep ⟨Int.le_refl _, fun _ => Nat.le_refl _, ?_⟩ rfl
    (inv_submit h.coverage.ok asked) (fun msg hm => .inl hm), ?_, ?_⟩
  · intro i s record deadline _ _ hc hmargin hu
    obtain ⟨hnear, hbacked⟩ := hc hmargin hu
    refine ⟨hnear, fun hlt => ?_⟩
    obtain ⟨hstands, hspared⟩ := hbacked hlt
    exact ⟨hstands, forall_mem_append hspared trivial⟩
  · simp only [Backend.submit, List.length_append, List.length_singleton, h.tickets]
  · intro j ticket' session ht hs
    rcases getElem?_concat hs with hold | ⟨rfl, rfl⟩
    · rcases getElem?_concat ht with ht | ⟨rfl, _⟩
      · exact (h.attended j ticket' session ht hold).follow hfollows
      · exact absurd (List.getElem?_eq_some_iff.mp hold).1 (by rw [h.tickets]; exact Nat.lt_irrefl _)
    · rcases getElem?_concat ht with hold | ⟨_, rfl⟩
      · exact absurd (List.getElem?_eq_some_iff.mp hold).1 (by rw [h.tickets]; exact Nat.lt_irrefl _)
      · exact ⟨hasked.follow hfollows, Int.le_of_eq hsent, trivial⟩

end Submit

end Links

end GoLease.Postgres.Contested
