import GoLease.Admission
import GoLease.FleetSteps
import GoLease.Honest

namespace GoLease.Keepalive

open Lifecycle Pool Traces Coverage Honest Identity
open Client (Answers)

/-- A memory store granted this record in answer to a session. -/
structure Granted (store : Memory.Store) (s : Session) (record : Record) : Prop where
  answers : Answers s.key s.owner record
  known : Known store record
  valid : Memory.validate none s.key s.owner s.policy.1.ttl.toInt = none

/-- What the sessions of a fleet over a memory store know about the records
they were granted. -/
structure Anchored (f : Fleet Memory.Store) : Prop where
  formed : Formed f.now f.store
  granted : ∀ (i : Nat) s record, f.sessions[i]? = some s → s.reply = some ⟨record, none⟩ →
    Granted f.store s record
  holding : ∀ (i : Nat) s m, f.sessions[i]? = some s → s.holder = .holding m →
    ∃ record, s.reply = some ⟨record, none⟩ ∧ Inv s.key s.owner record m

variable {f f' : Fleet Memory.Store} {event : Fleet.Event}

theorem Granted.exec {store : Memory.Store} {s : Session} {record : Record} (h : Granted store s record)
    {now : Int} (hf : Formed now store) (ctx : Ctx) (request : Request) :
    Granted (store.exec ⟨now, ctx, request⟩).1 s record :=
  ⟨h.answers, h.known.step hf (store.exec_step ⟨now, ctx, request⟩), h.valid⟩

/-- A change of what one session holds. -/
theorem Anchored.setHolder (h : Anchored f) {i : Nat} {s : Session} {holder : Holder}
    (hi : f.sessions[i]? = some s) (hholder : ∀ m, holder = .holding m →
      ∃ record, s.reply = some ⟨record, none⟩ ∧ Inv s.key s.owner record m) (messages : List Message) :
    Anchored { f with sessions := f.sessions.set i { s with holder }, messages } := by
  refine ⟨h.formed, ?_, ?_⟩
  · intro j t record hj hreply
    rcases getElem?_set_cases hj with ⟨rfl, rfl⟩ | ⟨_, hj⟩
    · have hg := h.granted i s record hi hreply
      exact ⟨hg.answers, hg.known, hg.valid⟩
    · exact h.granted j t record hj hreply
  · intro j t m hj hm
    rcases getElem?_set_cases hj with ⟨rfl, rfl⟩ | ⟨_, hj⟩
    · exact hholder m hm
    · exact h.holding j t m hj hm

theorem Anchored.moved (h : Anchored f) (hm : Fleet.Moved Memory.Store.exec f event f') : Anchored f' := by
  cases hm with
  | kept => exact h
  | ticked elapsed =>
      have hle : f.now ≤ f.now + (elapsed : Int) := by omega
      exact ⟨h.formed.later hle, h.granted, h.holding⟩
  | asked key owner policy clock =>
      refine ⟨h.formed, ?_, ?_⟩
      · intro i s record hi hreply
        rcases getElem?_concat hi with hi | ⟨_, rfl⟩
        · exact h.granted i s record hi hreply
        · cases hreply
      · intro i s m hi hm
        rcases getElem?_concat hi with hi | ⟨_, rfl⟩
        · exact h.holding i s m hi hm
        · cases hm
  | @granted i s ctx hi hnone =>
      have hs := f.store.exec_step ⟨f.now, ctx, .tryAcquire s.key s.owner s.policy.1.ttl.toInt⟩
      refine ⟨h.formed.step hs, ?_, ?_⟩
      · intro j t record hj hreply
        rcases getElem?_set_cases hj with ⟨rfl, rfl⟩ | ⟨_, hj⟩
        · have hok : (f.store.exec ⟨f.now, ctx, .tryAcquire s.key s.owner s.policy.1.ttl.toInt⟩).2 =
              ⟨record, none⟩ := Option.some.inj hreply
          obtain ⟨hvalid, hanswers, hknown⟩ := tryAcquire_known h.formed (congrArg Reply.err hok)
          rw [hok] at hanswers hknown
          exact ⟨hanswers, hknown, hvalid⟩
        · exact (h.granted j t record hj hreply).exec h.formed _ _
      · intro j t m hj hm
        rcases getElem?_set_cases hj with ⟨rfl, rfl⟩ | ⟨_, hj⟩
        · obtain ⟨record, hreply, _⟩ := h.holding i s m hi hm
          rw [hnone] at hreply
          cases hreply
        · exact h.holding j t m hj hm
  | opened hi hreply hwaiting haccept =>
      apply h.setHolder hi
      rintro _ ⟨⟩
      obtain ⟨hvalid, rfl⟩ := Client.accept_ok haccept
      exact ⟨_, hreply, inv_newHandleAt (Client.validAcquisition_iff.mp hvalid) _ _⟩
  | failed _ err hi hwaiting =>
      apply h.setHolder hi
      rintro _ ⟨⟩
  | driven hi hholder hd =>
      apply h.setHolder hi
      rintro _ ⟨⟩
      obtain ⟨record, hreply, hinv⟩ := h.holding _ _ _ hi hholder
      exact ⟨record, hreply, hinv.step _⟩
  | @served n msg ctx hn hnone =>
      refine ⟨h.formed.step (f.store.exec_step ⟨f.now, ctx, msg.request⟩), ?_, h.holding⟩
      intro j t record hj hreply
      exact (h.granted j t record hj hreply).exec h.formed _ _

end GoLease.Keepalive
