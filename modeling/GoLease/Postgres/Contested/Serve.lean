import GoLease.Postgres.Contested.Invariant

namespace GoLease.Postgres.Contested

open Isolation (Server Step step_step)
open Database Pool Lifecycle Coverage Truncation

section Answers

variable {σ κ : Type} {exec : σ → Call → σ × Reply} {slot : Key → κ} {slack : Int}
  {c : Contract exec slot slack} {f : Fleet σ} {store' : σ} {reply : Reply}

/-- The store answers an attempt to acquire: a grant has a token above the
fence, and its deadline is covered from now on. -/
theorem inv_answer_acquire (h : Inv c f) {i : Nat} {s : Session} (hi : f.sessions[i]? = some s)
    (hnone : s.reply = none) (hok : c.ok store')
    (hkeep : Keeps c f ⟨f.now, store', f.sessions.set i { s with reply := some reply }, f.messages⟩)
    (hgrant : ∀ record, reply = ⟨record, none⟩ → record.key = s.key ∧
      c.fence f.store (slot s.key) < record.token ∧ record.token ≤ c.fence store' (slot s.key) ∧
      Cover c ⟨f.now, store', f.sessions.set i { s with reply := some reply }, f.messages⟩ i s record
        (s.started.wall + s.policy.1.budget)) :
    Inv c ⟨f.now, store', f.sessions.set i { s with reply := some reply }, f.messages⟩ := by
  refine ⟨hok, ?_, ?_, ?_⟩
  · intro j t hj
    rcases getElem?_set_cases hj with ⟨rfl, rfl⟩ | ⟨_, hj⟩
    · refine ⟨(h.sessions i s hi).started, ?_, ?_⟩
      · intro record hr
        obtain ⟨hkey, _, hle, hcover⟩ := hgrant record (Option.some.inj hr)
        exact ⟨hkey, hle, hcover⟩
      · intro m hm
        obtain ⟨record, hr, _⟩ := (h.sessions i s hi).holding m hm
        rw [hnone] at hr
        cases hr
    · exact (h.sessions j t hj).keep hkeep hj
  · have hnew {j : Nat} {t : Session} {r q : Record} (hj : f.sessions[j]? = some t)
        (hr : reply = ⟨r, none⟩) (hq : t.reply = some ⟨q, none⟩) (hk : slot r.key = slot q.key) :
        r.token ≠ q.token := by
      obtain ⟨hkey, hlt, _⟩ := hgrant r hr
      rw [← hkey] at hlt
      exact h.token_ne hj hq hk hlt
    intro j k t u r q hj hk hr hq hkey htoken
    rcases getElem?_set_cases hj with ⟨rfl, rfl⟩ | ⟨_, hj⟩
    · rcases getElem?_set_cases hk with ⟨rfl, rfl⟩ | ⟨_, hk⟩
      · rfl
      · exact absurd htoken (hnew hk (Option.some.inj hr) hq hkey)
    · rcases getElem?_set_cases hk with ⟨rfl, rfl⟩ | ⟨_, hk⟩
      · exact absurd htoken.symm (hnew hj (Option.some.inj hq) hr hkey.symm)
      · exact h.distinct j k t u r q hj hk hr hq hkey htoken
  · intro msg hm
    obtain ⟨t, m, granted, owned, call, hsent⟩ := h.messages msg hm
    refine ⟨t, m, granted, owned, call, hsent.keep hkeep ?_⟩
    exact (List.getElem?_set_ne (hsent.ne_of_unanswered hi hnone)).trans hsent.sender

/-- The store answers a call of a handle: an acknowledged renewal is covered
from now on. -/
theorem inv_answer_call (h : Inv c f) {n : Nat} {msg : Message} (hn : f.messages[n]? = some msg)
    (hok : c.ok store')
    (hkeep : Keeps c f ⟨f.now, store', f.sessions, f.messages.set n { msg with reply := some reply }⟩)
    (hrenew : ∀ s m granted owned call, Sent c f msg s m granted owned call → reply.err = none →
      call.op = .renew →
      Cover c ⟨f.now, store', f.sessions, f.messages.set n { msg with reply := some reply }⟩ msg.session s
        granted (msg.wall + s.policy.1.budget)) :
    Inv c ⟨f.now, store', f.sessions, f.messages.set n { msg with reply := some reply }⟩ := by
  refine h.keep hkeep rfl hok ?_
  intro sent hmem
  rcases List.mem_or_eq_of_mem_set hmem with hmem | rfl
  · exact .inl hmem
  · obtain ⟨s, m, granted, owned, call, hsent⟩ := h.messages msg (List.mem_of_getElem? hn)
    refine .inr ⟨s, m, granted, owned, call, hsent.sender, hsent.holding, hsent.reply, hsent.caller,
      hsent.same, hsent.request, hsent.wall, hsent.left, hsent.started, ?_⟩
    intro record hr hop
    exact hrenew s m granted owned call hsent (congrArg Reply.err (Option.some.inj hr)) hop

end Answers

section Stamps

variable {f : System} {event : Isolation.Event}

@[simp]
theorem stamp_session (f : System) (event : Isolation.Event) : (stamp f event).session = event.session := by
  cases event <;> rfl

theorem stamp_install {j : Nat} {clock : Clock} (h : stamp f event = .install j clock) :
    ∃ clock', clock = instants f ((f.store.tickets[j]?).elim f.now Ticket.sent) clock' := by
  cases event with
  | install i clock' =>
      cases h
      exact ⟨clock', rfl⟩
  | start | fence | update | take | commit | cancel => cases h

theorem stamp_update {j : Nat} {seen : Int} {clock : Clock} (h : stamp f event = .update j seen clock) :
    clock = frozen f.now := by
  cases event with
  | update i seen' clock' =>
      cases h
      rfl
  | start | fence | install | take | commit | cancel => cases h

theorem le_instants {sent : Int} (hsent : sent ≤ f.now) (clock : Clock) (k : Nat) :
    sent ≤ instants f sent clock k := by
  unfold instants
  split <;> omega

end Stamps

section Steps

variable {store : Store} {f : System} {initial : Database}

/-- The handle that a running statement belongs to. -/
theorem Sound.asked (h : Sound store f initial) {j : Nat} {session : Isolation.Session}
    (hj : f.store.server.sessions[j]? = some session) :
    ∃ ticket, f.store.tickets[j]? = some ticket ∧ Attended store f ticket session := by
  have hlt : j < f.store.tickets.length := by
    rw [h.tickets]
    exact (List.getElem?_eq_some_iff.mp hj).1
  exact ⟨_, List.getElem?_eq_getElem hlt, h.attended j _ session (List.getElem?_eq_getElem hlt) hj⟩

theorem Sound.request (h : Sound store f initial) {j : Nat} {asked : Statement} {stage : Isolation.Stage}
    (hj : f.store.server.sessions[j]? = some ⟨asked, stage⟩)
    (hacquire : ∀ digest owner ms, asked ≠ .acquire digest owner ms)
    (hcleanup : ∀ batch doomed, asked ≠ .cleanup batch doomed) :
    ∃ msg ∈ f.messages, asked = statement store msg.request ∧
      ∀ owned ttl, msg.request = .renew owned ttl → millisecond ≤ ttl := by
  obtain ⟨⟨origin, sent⟩, _, hattended⟩ := h.asked hj
  have hasked := hattended.asked
  cases origin with
  | acquire i =>
      obtain ⟨s, _, he, _⟩ := hasked
      exact absurd he (hacquire _ _ _)
  | call n =>
      obtain ⟨msg, hn, he, hmin, _⟩ := hasked
      exact ⟨msg, List.mem_of_getElem? hn, he, hmin⟩
  | cleanup =>
      obtain ⟨batch, doomed, he⟩ := hasked
      exact absurd he (hcleanup _ _)

theorem Sound.allowed (h : Sound store f initial) (event : Isolation.Event) {i : Nat} {s : Session}
    {record : Record} {deadline : Int} (hi : f.sessions[i]? = some s)
    (hr : s.reply = some ⟨record, none⟩) (hu : f.Unreleased i)
    (hnear : deadline + slack ≤ f.now + s.policy.1.ttl.toInt) :
    Allowed f.store.server (stamp f event) (store.digest record.key) record deadline f.now := by
  refine ⟨?_, ?_, ?_, ?_⟩
  · intro clock hevent
    obtain ⟨clock', rfl⟩ := stamp_install hevent
    rfl
  · intro seen clock hevent
    rw [stamp_update hevent]
    rfl
  · rintro owner token stage hj ⟨rfl, rfl⟩
    obtain ⟨msg, hmem, he, _⟩ := h.request hj nofun nofun
    obtain ⟨t, m, granted, owned, call, hsent⟩ := h.coverage.messages msg hmem
    cases hrequest : msg.request with
    | release released =>
        rw [hrequest] at he
        obtain ⟨hdigest, howner, htoken⟩ := Statement.release.inj he
        have hsame : owned = released :=
          (request_eq_release.mp (hsent.request.symm.trans hrequest)).2
        subst hsame
        have hsession := h.coverage.sender_eq hsent hi hr ⟨hdigest.symm, howner.symm, htoken.symm⟩
        exact hu msg hmem hsession.symm owned hrequest
    | tryAcquire | renew | validate =>
        rw [hrequest] at he
        cases he
  · rintro owner token ms stage hj rfl rfl
    obtain ⟨msg, hmem, he, hmin⟩ := h.request hj nofun nofun
    obtain ⟨t, m, granted, owned, call, hsent⟩ := h.coverage.messages msg hmem
    cases hrequest : msg.request with
    | renew renewed ttl =>
        rw [hrequest] at he
        obtain ⟨hdigest, howner, htoken, rfl⟩ := Statement.renew.inj he
        obtain ⟨_, hsame, httl⟩ := request_eq_renew.mp (hsent.request.symm.trans hrequest)
        subst hsame
        have hsession := h.coverage.sender_eq hsent hi hr ⟨hdigest.symm, howner.symm, htoken.symm⟩
        have hsender := hsent.sender
        rw [← hsession, hi] at hsender
        cases hsender
        rw [httl] at hnear
        exact le_expiry (hmin _ _ hrequest) hnear
    | tryAcquire | validate | release =>
        rw [hrequest] at he
        cases he

theorem Sound.keeps (h : Sound store f initial) (event : Isolation.Event) (sessions : List Session)
    (messages : List Message)
    (hu : ∀ i, Fleet.Unreleased ⟨f.now, (advance f event).store, sessions, messages⟩ i → f.Unreleased i) :
    Keeps (contract store initial) f ⟨f.now, (advance f event).store, sessions, messages⟩ := by
  have hstep := step_step f.store.server (stamp f event)
  refine ⟨Int.le_refl _, fun key => reached_served h.coverage.ok hstep _, ?_⟩
  intro i s record deadline hi hr hcover hmargin hunreleased
  obtain ⟨hnear, hbacked⟩ := hcover hmargin (hu i hunreleased)
  refine ⟨hnear, fun hlt => ?_⟩
  exact (hbacked hlt).step hstep hlt (h.allowed event hi hr (hu i hunreleased) hnear)

/-- A step of the server keeps the statements of its sessions, and their
readings after the instants at which they were sent. -/
theorem Sound.attend (h : Sound store f initial) (event : Isolation.Event) {f' : System}
    (hf : Follows f f') (j : Nat) (ticket : Ticket) (session : Isolation.Session)
    (ht : f.store.tickets[j]? = some ticket)
    (hj : (f.store.server.step (stamp f event)).sessions[j]? = some session) :
    Attended store f' ticket session := by
  have hold {old : Isolation.Session} (hs : f.store.server.sessions[j]? = some old) :
      Attended store f' ticket old := (h.attended j ticket old ht hs).follow hf
  have hstep := step_step f.store.server (stamp f event)
  generalize f.store.server.step (stamp f event) = server' at hstep hj
  generalize hstamp : stamp f event = stamped at hstep
  cases hstep with
  | kept => exact hold hj
  | moved hi hm hevent =>
      rcases getElem?_set_cases hj with ⟨rfl, rfl⟩ | ⟨_, hj⟩
      · subst hevent
        obtain ⟨hasked, hsent, _⟩ := h.attended _ ticket _ ht hi
        refine ⟨?_, (hold hi).sent, moves_timed hm ?_ ?_⟩
        · rw [moves_statement hm]
          exact (hold hi).asked
        · intro clock hinstall
          obtain ⟨clock', rfl⟩ := stamp_install (hstamp.trans hinstall)
          rw [ht]
          exact le_instants hsent clock'
        · intro seen clock hupdate
          rw [stamp_update (hstamp.trans hupdate)]
          exact fun _ => hsent
      · exact hold hj
  | committed hi =>
      rcases getElem?_set_cases hj with ⟨rfl, rfl⟩ | ⟨_, hj⟩
      · exact ⟨(hold hi).asked, (hold hi).sent, trivial⟩
      · exact hold hj
  | cancelled hi =>
      rcases getElem?_set_cases hj with ⟨rfl, rfl⟩ | ⟨_, hj⟩
      · exact ⟨(hold hi).asked, (hold hi).sent, trivial⟩
      · exact hold hj

end Steps

section Replies

variable {s s' : Server} {event : Isolation.Event} {ctx : Ctx} {err : Error} {result : Option Answer}

/-- A statement returns by its commit, or without an effect. -/
theorem returned_cases {before : Isolation.Session} {asked : Statement} {since : Nat}
    (hs : Step s event s') (hbefore : s.sessions[event.session]? = some before)
    (hrunning : isReturned before = false)
    (hafter : s'.sessions[event.session]? = some ⟨asked, .returned since result⟩) :
    (result = none ∨ result = some .aborted) ∨
      ∃ since input written answer, result = some answer ∧
        before = ⟨asked, .evaluated since input written answer⟩ ∧
        s' = s.commit event.session asked since input written answer := by
  cases hs with
  | kept =>
      rw [hbefore] at hafter
      cases hafter
      cases hrunning
  | moved hi hm hevent =>
      subst hevent
      rcases getElem?_set_cases hafter with ⟨_, he⟩ | ⟨hne, _⟩
      · subst he
        cases hm with
        | refused | aborted => exact .inl (.inr rfl)
      · exact absurd rfl hne
  | @committed i since' statement input written answer hi =>
      rw [Isolation.Event.session, hi] at hbefore
      cases hbefore
      rcases getElem?_set_cases hafter with ⟨_, he⟩ | ⟨hne, _⟩
      · cases he
        exact .inr ⟨_, _, _, _, rfl, rfl, rfl⟩
      · exact absurd rfl hne
  | cancelled hi =>
      rcases getElem?_set_cases hafter with ⟨_, he⟩ | ⟨hne, _⟩
      · cases he
        exact .inl (.inl rfl)
      · exact absurd rfl hne

theorem reply_acquired {key : Key} {owner : Bytes} {ttl : Int} {record : Record}
    (h : reply ctx err result (.tryAcquire key owner ttl) = ⟨record, none⟩) :
    ∃ token a e, result = some (.acquired ⟨token, a, e, .ok⟩) ∧ record = ⟨key, owner, token, a, e⟩ := by
  simp only [reply] at h
  cases result with
  | none => cases h
  | some answer =>
      cases answer with
      | acquired row =>
          obtain ⟨token, a, e, outcome⟩ := row
          cases outcome with
          | contended | exhausted => cases h
          | ok =>
              refine ⟨token, a, e, rfl, ?_⟩
              simp only [scanAcquire, Responses.acquired, Responses.acquireText,
                Responses.recordFromValues_natCast] at h
              rw [if_neg (by decide), if_neg (by decide), if_pos trivial] at h
              cases hrecord : Postgres.recordFromValues key owner token a e with
              | error err =>
                  rw [hrecord] at h
                  cases h
              | ok parsed =>
                  rw [hrecord] at h
                  cases h
                  unfold Postgres.recordFromValues at hrecord
                  split at hrecord
                  next => cases hrecord
                  next =>
                    cases hrecord
                    rfl
      | record | released | deleted | aborted => cases h

theorem reply_renewed {owned : Record} {ttl : Int}
    (h : (reply ctx err result (.renew owned ttl)).err = none) :
    ∃ row, result = some (.record (some row)) := by
  simp only [reply] at h
  obtain ⟨record, hrecord⟩ := Valkey.Store.ofRecord_err.mp h
  unfold Responses.renewed Responses.continued at hrecord
  split at hrecord
  next => split at hrecord <;> cases hrecord
  next parsed hscan =>
    cases result with
    | none => cases hscan
    | some answer =>
        cases answer with
        | record row =>
            cases row with
            | none => cases hscan
            | some row => exact ⟨row, rfl⟩
        | acquired | released | deleted | aborted => cases hscan

end Replies

section Serve

variable {store : Store} {f : System} {initial : Database}

/-- The input under which a statement of a client has been evaluated. -/
theorem Sound.input (h : Sound store f initial) {j since : Nat} {asked : Statement}
    {input : Option (Clock × Statement)} {written : Isolation.Effect} {answer : Answer} {ticket : Ticket}
    (ht : f.store.tickets[j]? = some ticket)
    (hj : f.store.server.sessions[j]? = some ⟨asked, .evaluated since input written answer⟩)
    (hcleanup : ∀ batch doomed, asked ≠ .cleanup batch doomed) (hwritten : ¬Unwritten asked answer) :
    ∃ clock, input = some (clock, asked) ∧ ∀ k, ticket.sent ≤ clock k := by
  have htimed := (h.attended j ticket _ ht hj).timed
  cases input with
  | none => exact absurd htimed hwritten
  | some input =>
      obtain ⟨clock, executed⟩ := input
      have hsound := h.coverage.ok.sound j _ hj
      cases hsound with
      | evaluated hsince hexecutes =>
          cases hexecutes with
          | same => exact ⟨clock, rfl, htimed hcleanup⟩
          | cleanup => exact absurd rfl (hcleanup _ _)

/-- The commit of an acquisition gives its client a lease under a fresh token,
one that lasts as long as the client may rely on it. -/
theorem Sound.granted (h : Sound store f initial) {j since i token : Nat} {sent a e : Int} {s : Session}
    {asked : Statement} {input : Option (Clock × Statement)} {written : Isolation.Effect}
    (ht : f.store.tickets[j]? = some ⟨.acquire i, sent⟩) (hi : f.sessions[i]? = some s)
    (hj : f.store.server.sessions[j]? =
      some ⟨asked, .evaluated since input written (.acquired ⟨token, a, e, .ok⟩)⟩) :
    let server := f.store.server.commit j asked since input written (.acquired ⟨token, a, e, .ok⟩)
    reached f.store.server.db (store.digest s.key) < token ∧
      token ≤ reached server.db (store.digest s.key) ∧
      (slack ≤ s.policy.1.safetyMargin.toInt →
        Backs store server ⟨s.key, s.owner, token, a, e⟩ (s.started.wall + s.policy.1.budget)) := by
  intro server
  obtain ⟨s', hi', rfl, hmin, hstarted⟩ := (h.attended j _ _ ht hj).asked
  rw [hi] at hi'
  cases hi'
  obtain ⟨clock, rfl, htimed⟩ := h.input ht hj nofun (fun hnot => hnot token a e rfl)
  obtain ⟨row, rfl, hfence, hactive, howner, htoken, hexpiry, -, -, -⟩ :=
    evaluated_acquired h.coverage.ok hj htimed
  refine ⟨reached_nextFence hfence, ?_, fun hmargin => ?_⟩
  · exact Nat.le_of_eq (congrArg (Option.getD · 0) (setFence_self _ _ _)).symm
  · have hsecures : Secures ⟨s.key, s.owner, token, a, e⟩ (s.started.wall + s.policy.1.budget) row :=
      ⟨hactive, howner, htoken,
        Int.le_trans (le_expiry hmin (near_of_margin s.policy hstarted hmargin)) hexpiry⟩
    exact backs_commit h.coverage.ok hj hsecures

/-- The commit of a renewal prolongs the lease for the client that sent it. -/
theorem Sound.renewed (h : Sound store f initial) {j since n : Nat} {sent : Int} {msg : Message}
    {asked : Statement} {input : Option (Clock × Statement)} {written : Isolation.Effect} {row : RecordRow}
    (ht : f.store.tickets[j]? = some ⟨.call n, sent⟩) (hn : f.messages[n]? = some msg)
    (hj : f.store.server.sessions[j]? = some ⟨asked, .evaluated since input written (.record (some row))⟩)
    {s : Session} {m : Machine} {granted owned : Record} {call : Invocation}
    (hsent : Sent (contract store initial) f msg s m granted owned call) (hop : call.op = .renew)
    (hmargin : slack ≤ s.policy.1.safetyMargin.toInt) :
    Backs store (f.store.server.commit j asked since input written (.record (some row))) granted
      (msg.wall + s.policy.1.budget) := by
  obtain ⟨msg', hn', rfl, hmin, hwall⟩ := (h.attended j _ _ ht hj).asked
  rw [hn] at hn'
  cases hn'
  have hrequest : msg.request = .renew owned s.policy.1.ttl.toInt := by
    rw [hsent.request, hop]
    rfl
  rw [hrequest] at hj hmin ⊢
  obtain ⟨clock, rfl, htimed⟩ := h.input ht hj nofun (fun hnot => hnot row rfl)
  obtain ⟨written, rfl, hactive, howner, htoken, hexpiry⟩ := evaluated_renewed h.coverage.ok hj htimed
  obtain ⟨hkey, hsame, htied⟩ := hsent.same
  simp only [statement, hkey] at hj ⊢
  refine backs_commit h.coverage.ok hj ⟨hactive, howner.trans hsame, htoken.trans htied, ?_⟩
  exact Int.le_trans (le_expiry (hmin _ _ rfl) (near_of_margin s.policy hwall hmargin)) hexpiry

theorem awaited_acquire {i : Nat} {request : Request} (h : awaited f (.acquire i) = some request) :
    ∃ s, f.sessions[i]? = some s ∧ s.reply = none ∧
      request = .tryAcquire s.key s.owner s.policy.1.ttl.toInt := by
  simp only [awaited] at h
  split at h
  next s hi =>
    split at h
    next => cases h
    next hnone => exact ⟨s, hi, by simpa using hnone, (Option.some.inj h).symm⟩
  next => cases h

theorem awaited_call {n : Nat} {request : Request} (h : awaited f (.call n) = some request) :
    ∃ msg, f.messages[n]? = some msg ∧ request = msg.request := by
  simp only [awaited] at h
  split at h
  next msg hn =>
    split at h
    next => cases h
    next => exact ⟨msg, hn, (Option.some.inj h).symm⟩
  next => cases h

theorem step_length {s s' : Server} {event : Isolation.Event} (hs : Step s event s') :
    s'.sessions.length = s.sessions.length := by
  cases hs with
  | kept => rfl
  | moved | committed | cancelled => exact List.length_set

theorem Sound.length_advance (h : Sound store f initial) (event : Isolation.Event) :
    f.store.tickets.length = (advance f event).store.server.sessions.length :=
  h.tickets.trans (step_length (step_step _ _)).symm

theorem Sound.advance (h : Sound store f initial) (event : Isolation.Event) :
    Sound store (advance f event) initial :=
  ⟨h.coverage.keep (h.keeps event f.sessions f.messages (fun _ hu => hu)) rfl
      (h.coverage.ok.step (fun _ _ _ => trivial)) (fun _ hm => .inl hm),
    h.length_advance event, h.attend event ⟨Int.le_refl _, sessions_same, messages_same⟩⟩

section Returned

variable {event : Isolation.Event} {before : Isolation.Session} {asked : Statement} {since : Nat}
  {result : Option Answer} {sent : Int} (ctx : Ctx) (err : Error)

theorem Sound.answer_acquire (h : Sound store f initial) {i : Nat} {s : Session}
    (hbefore : f.store.server.sessions[event.session]? = some before) (hrunning : isReturned before = false)
    (hafter : (Contested.advance f event).store.server.sessions[event.session]? =
      some ⟨asked, .returned since result⟩)
    (ht : f.store.tickets[event.session]? = some ⟨.acquire i, sent⟩) (hi : f.sessions[i]? = some s)
    (hnone : s.reply = none) :
    Sound store { Contested.advance f event with sessions := f.sessions.set i { s with
      reply := some (reply ctx err result (.tryAcquire s.key s.owner s.policy.1.ttl.toInt)) } } initial := by
  have hstep := step_step f.store.server (stamp f event)
  refine ⟨inv_answer_acquire h.coverage hi hnone (h.coverage.ok.step (fun _ _ _ => trivial))
    (h.keeps event _ _ (fun _ hu => hu)) ?_, h.length_advance event,
    h.attend event ⟨Int.le_refl _, sessions_set hi ⟨rfl, rfl, rfl, rfl⟩, messages_same⟩⟩
  intro record hreply
  obtain ⟨token, a, e, rfl, rfl⟩ := reply_acquired hreply
  rw [← stamp_session f event] at hbefore hafter ht
  rcases returned_cases hstep hbefore hrunning hafter with hnot | ⟨_, _, _, _, hanswer, rfl, hcommit⟩
  · simp at hnot
  cases hanswer
  obtain ⟨hlt, hle, hbacks⟩ := h.granted ht hi hbefore
  rw [← hcommit] at hle hbacks
  refine ⟨rfl, hlt, hle, fun hmargin _ => ⟨?_, fun _ => hbacks hmargin⟩⟩
  exact near_of_margin s.policy (h.coverage.sessions i s hi).started hmargin

theorem Sound.answer_call (h : Sound store f initial) {n : Nat} {msg : Message}
    (hbefore : f.store.server.sessions[event.session]? = some before) (hrunning : isReturned before = false)
    (hafter : (Contested.advance f event).store.server.sessions[event.session]? =
      some ⟨asked, .returned since result⟩)
    (ht : f.store.tickets[event.session]? = some ⟨.call n, sent⟩) (hn : f.messages[n]? = some msg) :
    Sound store { Contested.advance f event with messages := f.messages.set n { msg with
      reply := some (reply ctx err result msg.request) } } initial := by
  have hstep := step_step f.store.server (stamp f event)
  refine ⟨inv_answer_call h.coverage hn (h.coverage.ok.step (fun _ _ _ => trivial))
    (h.keeps event _ _ (fun _ hu => unreleased_of_set hn hu)) ?_, h.length_advance event,
    h.attend event ⟨Int.le_refl _, sessions_same, messages_set hn _⟩⟩
  intro s m granted owned call hsent hreply hop hmargin _
  rw [hsent.request, hop] at hreply
  obtain ⟨row, rfl⟩ := reply_renewed hreply
  rw [← stamp_session f event] at hbefore hafter ht
  rcases returned_cases hstep hbefore hrunning hafter with hnot | ⟨_, _, _, _, hanswer, rfl, hcommit⟩
  · simp at hnot
  cases hanswer
  have hbacks := h.renewed ht hn hbefore hsent hop hmargin
  rw [← hcommit] at hbacks
  exact ⟨near_of_margin s.policy hsent.wall hmargin, fun _ => hbacks⟩

end Returned

theorem Sound.serve (h : Sound store f initial) (event : Isolation.Event) (ctx : Ctx) (err : Error) :
    Sound store (serve f event ctx err) initial := by
  unfold Contested.serve
  split
  next before asked since result ticket hbefore hafter ht =>
    split
    next => exact h.advance event
    next hrunning =>
      rw [Bool.not_eq_true] at hrunning
      split
      next request hawaited =>
        obtain ⟨origin, sent⟩ := ticket
        cases origin with
        | acquire i =>
            obtain ⟨s, hi, hnone, rfl⟩ := awaited_acquire hawaited
            have hi' : (Contested.advance f event).sessions[i]? = some s := hi
            simp only [Contested.answer, hi']
            exact h.answer_acquire ctx err hbefore hrunning hafter ht hi hnone
        | call n =>
            obtain ⟨msg, hn, rfl⟩ := awaited_call hawaited
            have hn' : (Contested.advance f event).messages[n]? = some msg := hn
            simp only [Contested.answer, hn']
            exact h.answer_call ctx err hbefore hrunning hafter ht hn
        | cleanup => cases hawaited
      next => exact h.advance event
  next => exact h.advance event

end Serve

end GoLease.Postgres.Contested
