import Deezns.DnsReplies

/-!
# Front-ends that talk to each other

A datagram with a forged source makes two front-ends, or one and itself, reply
to each other. Each reply that a front-end makes is a response, and a response
is answered with FORMERR like any other message that is no query.
-/
namespace Deezns.Dns

open Octets (Bytes)

variable {cel : Cel}

/-- A front-end and the address it is reached at. -/
structure Party (cel : Cel) where
  front : Frontend cel
  addr : SocketAddr

/-- What a task of `serve_udp` sends for a message: one datagram, to its peer. -/
def Frontend.serveDatagram (front : Frontend cel) (upstream : Upstream) (proc : Option ProcFs)
    (message : Bytes) (peer server : SocketAddr) : Effect (List (Bytes × SocketAddr)) := do
  let reply ← front.respond upstream proc message peer .udp server
  return [(reply, peer)]

instance (hostname : Utf8.Str) (verdict : PolicyVerdict) :
    Decidable (LetsThrough hostname verdict) := inferInstanceAs (Decidable (_ ∨ _))

instance (front : Frontend cel) (proc : Option ProcFs) (raw : Bytes) (peer : SocketAddr)
    (transport : Transport) (server : SocketAddr) :
    Decidable (front.MaySend proc raw peer transport server) :=
  match h : Query.parse raw with
  | .error _ => isFalse (by
      rintro ⟨query, hquery, -⟩
      cases h.symm.trans hquery)
  | .ok _ => decidable_of_iff _ (front.maySend_iff proc raw peer transport server h).symm

/-- The message is relayed upstream, and what comes back in time is the reply. -/
def Frontend.Relayed (front : Frontend cel) (upstream : Upstream) (proc : Option ProcFs)
    (message : Bytes) (peer server : SocketAddr) : Prop :=
  front.MaySend proc message peer .udp server ∧ upstreamReply upstream message .udp ≠ none

instance (front : Frontend cel) (upstream : Upstream) (proc : Option ProcFs) (message : Bytes)
    (peer server : SocketAddr) :
    Decidable (front.Relayed upstream proc message peer server) :=
  inferInstanceAs (Decidable (_ ∧ _))

/-- The messages of an exchange: the first one goes to `a`, and each reply that
is not relayed from upstream goes to the other party, as if from a client. -/
def exchange (a b : Party cel) (around : Nat → Upstream × Option ProcFs) (message : Bytes) :
    Nat → Option Bytes
  | 0 => some message
  | k + 1 =>
    if a.front.Relayed (around 0).1 (around 0).2 message b.addr a.addr then none
    else
      exchange b a (fun i => around (i + 1))
        (a.front.respond (around 0).1 (around 0).2 message b.addr .udp a.addr).value k

/-- A reply is relayed, or made here and a response. -/
theorem isResponse_of_not_relayed (front : Frontend cel) (upstream : Upstream)
    (proc : Option ProcFs) (message : Bytes) (peer server : SocketAddr)
    (h : ¬ front.Relayed upstream proc message peer server) :
    IsResponse (front.respond upstream proc message peer .udp server).value := by
  rcases front.value_respond_cases upstream proc message peer .udp server with
    ⟨e, hparse, hvalue⟩ | ⟨query, hparse, ⟨hmay, hvalue⟩ | ⟨_, hvalue | hvalue⟩⟩
  · rw [hvalue]
    exact isResponse_formerr message
  · have hnone : upstreamReply upstream message .udp = none := by
      by_contra hsome
      exact h ⟨hmay, hsome⟩
    rw [hvalue, hnone]
    exact query.isResponse_response _ _ _
  · rw [hvalue]
    exact query.isResponse_response _ _ _
  · rw [hvalue]
    exact query.isResponse_response _ _ _

theorem IsResponse.not_relayed {message : Bytes} (h : IsResponse message) (front : Frontend cel)
    (upstream : Upstream) (proc : Option ProcFs) (peer server : SocketAddr) :
    ¬ front.Relayed upstream proc message peer server := by
  rintro ⟨⟨query, hquery, -⟩, -⟩
  obtain ⟨e, herror⟩ := h.parse_eq_error
  cases hquery.symm.trans herror

/-- A response keeps an exchange going for ever. -/
theorem IsResponse.exchange_ne_none {message : Bytes} (h : IsResponse message) (a b : Party cel)
    (around : Nat → Upstream × Option ProcFs) (k : Nat) :
    exchange a b around message k ≠ none := by
  induction k generalizing a b around message with
  | zero => simp [exchange]
  | succ k ih =>
    have hlocal := h.not_relayed a.front (around 0).1 (around 0).2 b.addr a.addr
    rw [exchange, if_neg hlocal]
    exact ih (isResponse_of_not_relayed _ _ _ _ _ _ hlocal) b a _

/-- An exchange ends exactly if its first message is relayed from upstream, and
no response goes without a reply. -/
theorem exchange_ends_iff (a b : Party cel) (around : Nat → Upstream × Option ProcFs)
    (message : Bytes) :
    ((∃ k, exchange a b around message k = none) ∧
      (IsResponse message →
        (a.front.serveDatagram (around 0).1 (around 0).2 message b.addr a.addr).value = [])) ↔
      a.front.Relayed (around 0).1 (around 0).2 message b.addr a.addr := by
  constructor
  · rintro ⟨⟨k, hend⟩, -⟩
    by_contra hlocal
    cases k with
    | zero => simp [exchange] at hend
    | succ k =>
      rw [exchange, if_neg hlocal] at hend
      exact (isResponse_of_not_relayed _ _ _ _ _ _ hlocal).exchange_ne_none b a _ k hend
  · intro hrelayed
    refine ⟨⟨1, if_pos hrelayed⟩, ?_⟩
    intro hresponse
    exact absurd hrelayed (hresponse.not_relayed _ _ _ _ _)

/-- Two bytes are enough to keep a front-end busy with itself. -/
theorem exchange_of_junk_never_ends :
    (∀ k, exchange (⟨Frontend.testFront, ⟨loopback, 53⟩⟩ : Party Cel.direct)
      ⟨Frontend.testFront, ⟨loopback, 53⟩⟩ (fun _ => (⟨.stall, .connectStall⟩, none)) [0, 7] k ≠
        none) ∧
    IsResponse (formerr [0, 7]) ∧
    (Frontend.testFront.serveDatagram ⟨.stall, .connectStall⟩ none (formerr [0, 7])
      ⟨loopback, 53⟩ ⟨loopback, 53⟩).value = [(formerr [0, 7], ⟨loopback, 53⟩)] := by
  refine ⟨?_, isResponse_formerr _, by decide⟩
  intro k
  cases k with
  | zero => simp [exchange]
  | succ k =>
    have hlocal : ¬ Frontend.testFront.Relayed ⟨.stall, .connectStall⟩ none [0, 7]
        ⟨loopback, 53⟩ ⟨loopback, 53⟩ := by decide
    rw [exchange, if_neg hlocal]
    exact (isResponse_of_not_relayed _ _ _ _ _ _ hlocal).exchange_ne_none _ _ _ k

end Deezns.Dns
