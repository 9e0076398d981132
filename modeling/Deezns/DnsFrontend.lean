import Deezns.Decisions
import Deezns.Dns

/-!
# Laws of the DNS front-end

A message that parses is judged by its question, unless a relay sent it, and
the decision is carried out; one that does not is answered with FORMERR.
Forwarding writes the message behind its length, or the datagram as it is.
-/
namespace Deezns.Dns

open Octets (Bytes)
open Utf8 (Str)

theorem Query.raw_of_parse {raw : Bytes} {query : Query} (h : Query.parse raw = .ok query) :
    query.raw = raw := by
  unfold Query.parse at h
  split at h
  · cases h
  split at h
  · split at h
    · cases h
    split at h
    · cases h
    split at h
    · cases h
    split at h
    · cases h
      rfl
    · cases h
  · cases h

/-- A message as it goes upstream over a transport. -/
def framed (transport : Transport) (raw : Bytes) : Bytes :=
  match transport with
  | .udp => raw
  | .tcp => lengthPrefix raw ++ raw

theorem fromBeBytes_lengthPrefix (raw : Bytes) (h : raw.length ≤ maxMessage) :
    Octets.fromBeBytes (lengthPrefix raw) = raw.length := by
  rw [lengthPrefix, Octets.fromBeBytes_toBeBytes]
  exact Nat.mod_eq_of_lt (by simp only [maxMessage] at h; omega)

/-- What an upstream takes of a message: nothing where it is not reached, the front
where a write fails or stalls, else the whole. -/
def Upstream.takes (upstream : Upstream) (transport : Transport) (raw : Bytes) : Bytes :=
  match transport with
  | .udp =>
    match upstream.udp with
    | .failed _ | .stall => []
    | .sent _ _ => raw
  | .tcp =>
    match upstream.tcp with
    | .connectError _ | .connectStall => []
    | .writeError written _ | .writeStall written => (framed .tcp raw).take written
    | .answered _ => framed .tcp raw

theorem flatten_sentPieces_writePart (raw : Bytes) (written : Nat) :
    (sentPieces (writePart raw written).trace).flatten = (framed .tcp raw).take written := by
  have hlen : (lengthPrefix raw).length = 2 := Octets.length_toBeBytes 2 raw.length
  unfold writePart
  split
  · next hfew =>
    have hle : written ≤ (lengthPrefix raw).length := by omega
    simp [framed, List.take_append_of_le_length hle]
  · next hmany =>
    simp [framed, List.take_append, hlen, List.take_of_length_le (show (lengthPrefix raw).length ≤
      written by omega)]

theorem sentPieces_forwardUdp (upstream : UdpUpstream) (raw : Bytes) :
    sentPieces (forwardUdp upstream raw).trace = [] ∨
      sentPieces (forwardUdp upstream raw).trace = [raw] := by
  cases upstream with
  | failed e => exact .inl rfl
  | stall => exact .inl rfl
  | sent arriving last =>
    right
    simp only [forwardUdp, Traced.trace_bind]
    split <;> simp

theorem trace_forward (upstream : Upstream) (query : Query) (transport : Transport) :
    (forward upstream query transport).trace =
      match transport with
      | .udp => (forwardUdp upstream.udp query.raw).trace
      | .tcp => (forwardTcp upstream.tcp query.raw).trace := by
  cases transport with
  | udp =>
    simp only [forward, Traced.trace_bind]
    split <;> simp
  | tcp =>
    simp only [forward, Traced.trace_bind]
    split <;> simp

/-- What forwarding writes is what the upstream takes, over UDP in one piece. -/
theorem sentPieces_forward (upstream : Upstream) (query : Query) (transport : Transport) :
    (sentPieces (forward upstream query transport).trace).flatten =
        upstream.takes transport query.raw ∧
      (transport = .udp → sentPieces (forward upstream query transport).trace = [] ∨
        sentPieces (forward upstream query transport).trace = [query.raw]) := by
  rw [trace_forward]
  cases transport with
  | udp =>
    constructor
    · cases h : upstream.udp with
      | failed e => simp [forwardUdp, Upstream.takes, h]
      | stall => simp [forwardUdp, Upstream.takes, h]
      | sent arriving last =>
        simp only [forwardUdp, Upstream.takes, h, Traced.trace_bind]
        split <;> simp
    · intro _
      exact sentPieces_forwardUdp upstream.udp query.raw
  | tcp =>
    constructor
    · cases h : upstream.tcp with
      | connectError e => simp [forwardTcp, Upstream.takes, h]
      | connectStall => simp [forwardTcp, Upstream.takes, h]
      | writeError n e =>
        simpa [forwardTcp, Upstream.takes, h] using flatten_sentPieces_writePart query.raw n
      | writeStall n =>
        simpa [forwardTcp, Upstream.takes, h] using flatten_sentPieces_writePart query.raw n
      | answered stream =>
        simp only [forwardTcp, Upstream.takes, h, Traced.trace_bind]
        split <;> simp [framed]
    · intro hudp
      cases hudp

@[simp] theorem questions_writePart (raw : Bytes) (written : Nat) :
    questions (writePart raw written).trace = [] := by
  unfold writePart
  split <;> simp

/-- Forwarding asks nothing of the policy. -/
@[simp] theorem questions_forward (upstream : Upstream) (query : Query) (transport : Transport) :
    questions (forward upstream query transport).trace = [] := by
  rw [trace_forward]
  cases transport with
  | udp =>
    cases hudp : upstream.udp with
    | failed e => rfl
    | stall => rfl
    | sent arriving last =>
      simp only [forwardUdp, Traced.trace_bind]
      split <;> simp
  | tcp =>
    cases htcp : upstream.tcp with
    | connectError e => rfl
    | connectStall => rfl
    | writeError n e => simp [forwardTcp]
    | writeStall n => simp [forwardTcp]
    | answered stream =>
      simp only [forwardTcp, Traced.trace_bind]
      split <;> simp

/-- How the front-end carries out a decision on a query. -/
def carryOut (upstream : Upstream) (query : Query) (transport : Transport) :
    Decision → Effect Bytes
  | .deny => return query.nxdomain
  | .answer addrs => return query.answer addrs
  | .forward => forward upstream query transport

@[simp] theorem questions_carryOut (upstream : Upstream) (query : Query)
    (transport : Transport) (decision : Decision) :
    questions (carryOut upstream query transport decision).trace = [] := by
  cases decision with
  | deny => rfl
  | answer addrs => rfl
  | forward => exact questions_forward upstream query transport

variable {cel : Cel} (front : Frontend cel) (upstream : Upstream) (proc : Option ProcFs)
  (raw : Bytes) (peer : SocketAddr) (transport : Transport) (server : SocketAddr)

theorem Frontend.respond_of_error {e : ParseError} (h : Query.parse raw = .error e) :
    front.respond upstream proc raw peer transport server = pure (formerr raw) := by
  simp [respond, h]

theorem Frontend.respond_of_relay {query : Query} (h : Query.parse raw = .ok query)
    (hrelay : front.relays.contains (front.callerOf proc transport peer server) = true) :
    front.respond upstream proc raw peer transport server =
      forward upstream query transport := by
  simp [respond, h, hrelay]

/-- A query that is judged carries out the decision on its name. -/
theorem Frontend.respond_of_judged {query : Query} (h : Query.parse raw = .ok query)
    (hrelay : front.relays.contains (front.callerOf proc transport peer server) = false) :
    front.respond upstream proc raw peer transport server = (do
      let verdict ← front.engine.ask query.question.hostname
        (front.callerOf proc transport peer server)
      carryOut upstream query transport (verdict.decision query.question.hostname)) := by
  simp only [respond, h, hrelay, Bool.false_eq_true, if_false]
  congr 1
  funext verdict
  cases verdict with
  | denied reason => rfl
  | passThrough => rfl
  | allowed =>
    by_cases h : (upstreamResolve query.question.hostname).isEmpty = true
    · simp [PolicyVerdict.decision, h, carryOut]
    · simp [PolicyVerdict.decision, h, carryOut]

/-- A judged query is asked about once, a relay's never. -/
theorem Frontend.questions_respond :
    questions (front.respond upstream proc raw peer transport server).trace =
      match Query.parse raw with
      | .error _ => []
      | .ok query =>
        if front.relays.contains (front.callerOf proc transport peer server) then []
        else [(query.question.hostname, front.callerOf proc transport peer server)] := by
  cases h : Query.parse raw with
  | error e => simp [respond_of_error _ _ _ _ _ _ _ h]
  | ok query =>
    cases hrelay : front.relays.contains (front.callerOf proc transport peer server) with
    | true => simp [respond_of_relay _ _ _ _ _ _ _ h hrelay]
    | false => simp [respond_of_judged _ _ _ _ _ _ _ h hrelay]

end Deezns.Dns
