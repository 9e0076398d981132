import Deezns.DnsNames
import Deezns.Framing
import Deezns.Mediation

/-!
# Replies of the DNS front-end

A reply is made here, and then it starts with the id of its message, is marked
as a response, and is short; or it is what the upstream server sent. Over UDP
only a datagram with the right id is taken for that, over TCP any message is.
-/
namespace Deezns.Dns

open Octets (Bytes toBeBytes)
open Utf8 (Str)
open Framing (takeFrame frame)

/-- A message over TCP is a frame. -/
theorem readTcpMessage_eq_message_iff (stream rest : Stream) (message : Bytes) :
    readTcpMessage stream = some (.ok (some (message, rest))) ↔
      takeFrame 2 stream.bytes = some (message, rest.bytes) ∧ stream.ending = rest.ending := by
  rw [Framing.takeFrame_eq_some_iff]
  constructor
  · intro h
    unfold readTcpMessage at h
    split at h
    · cases h
    · split at h <;> cases h
    next len behind hlen =>
    split at h
    · cases h
    · cases h
    next hmessage =>
    cases h
    obtain ⟨htwo, rfl⟩ := (Stream.readExact_eq_ok_iff _ _ _ _).mp hlen
    obtain ⟨hlength, rfl⟩ := (Stream.readExact_eq_ok_iff _ _ _ _).mp hmessage
    have hback := Octets.toBeBytes_fromBeBytes len
    have hlt := Octets.fromBeBytes_lt len
    rw [htwo] at hback hlt
    rw [hlength, frame, hlength, hback, List.append_assoc]
    exact ⟨⟨hlt, rfl⟩, rfl⟩
  · rintro ⟨⟨hlt, hbytes⟩, hending⟩
    obtain rfl : stream = ⟨frame 2 message ++ rest.bytes, rest.ending⟩ := by
      rw [← hbytes, ← hending]
    have hlen : Stream.readExact ⟨frame 2 message ++ rest.bytes, rest.ending⟩ 2 =
        some (.ok (toBeBytes 2 message.length, ⟨message ++ rest.bytes, rest.ending⟩)) :=
      (Stream.readExact_eq_ok_iff _ _ _ _).mpr
        ⟨Octets.length_toBeBytes _ _, by simp [frame, List.append_assoc]⟩
    have hvalue : Octets.fromBeBytes (toBeBytes 2 message.length) = message.length := by
      rw [Octets.fromBeBytes_toBeBytes, Nat.mod_eq_of_lt hlt]
    have hmessage : Stream.readExact ⟨message ++ rest.bytes, rest.ending⟩ message.length =
        some (.ok (message, rest)) :=
      (Stream.readExact_eq_ok_iff _ _ _ _).mpr ⟨rfl, rfl⟩
    simp only [readTcpMessage, hlen, hvalue, hmessage]

/-- What the upstream server sends that is taken for the reply to a message. -/
def upstreamReply (upstream : Upstream) (raw : Bytes) : Transport → Option Bytes
  | .udp =>
    match upstream.udp with
    | .sent arriving _ => (arriving.map (List.take maxMessage)).find? (isReplyTo raw)
    | _ => none
  | .tcp =>
    match upstream.tcp with
    | .answered stream => (takeFrame 2 stream.bytes).map Prod.fst
    | _ => none

theorem value_forward (upstream : Upstream) (query : Query) (transport : Transport) :
    (forward upstream query transport).value =
      (upstreamReply upstream query.raw transport).getD query.servfail := by
  obtain ⟨udp, tcp⟩ := upstream
  cases transport with
  | udp =>
    cases udp with
    | failed e => rfl
    | stall => rfl
    | sent arriving last =>
      simp only [forward, forwardUdp, upstreamReply]
      cases (arriving.map (List.take maxMessage)).find? (isReplyTo query.raw) with
      | some reply => rfl
      | none => cases last <;> rfl
  | tcp =>
    cases tcp with
    | connectError e => rfl
    | connectStall => rfl
    | writeError written e => rfl
    | writeStall written => rfl
    | answered stream =>
      simp only [forward, forwardTcp, upstreamReply]
      cases hframe : takeFrame 2 stream.bytes with
      | some frame =>
        obtain ⟨reply, rest⟩ := frame
        have hread := (readTcpMessage_eq_message_iff stream ⟨rest, stream.ending⟩ reply).mpr
          ⟨hframe, rfl⟩
        simp [hread]
      | none =>
        have hread : ∀ message rest,
            readTcpMessage stream ≠ some (.ok (some (message, rest))) := by
          intro message rest h
          have := ((readTcpMessage_eq_message_iff stream rest message).mp h).1
          rw [hframe] at this
          cases this
        cases h : readTcpMessage stream with
        | none => rfl
        | some result =>
          cases result with
          | error e => rfl
          | ok read =>
            cases read with
            | none => rfl
            | some frame => exact absurd h (hread frame.1 frame.2)

/-- An upstream server that never answers makes for SERVFAIL. -/
theorem value_forward_silent (query : Query) (transport : Transport) :
    (forward ⟨.stall, .connectStall⟩ query transport).value = query.servfail := by
  rw [value_forward]
  cases transport <;> rfl

@[simp] theorem Query.take_two_response (query : Query) (rcode : UInt16) (answers : Bytes)
    (ancount : UInt16) : (query.response rcode answers ancount).take 2 = toBe16 query.id := by
  simp only [response, List.append_assoc, take_toBe16_append]

theorem Query.take_two_response_of_parse {raw : Bytes} {query : Query}
    (h : Query.parse raw = .ok query) (rcode : UInt16) (answers : Bytes) (ancount : UInt16) :
    (query.response rcode answers ancount).take 2 = raw.take 2 := by
  obtain ⟨-, labels, hreads⟩ := (Query.parse_eq_ok_iff raw query).mp h
  rw [take_two_response, ← hreads.id, Query.raw_of_parse h]

theorem take_two_formerr (raw : Bytes) (h : 2 ≤ raw.length) :
    (formerr raw).take 2 = raw.take 2 := by
  rw [formerr, if_pos h, List.append_assoc]
  exact List.take_left' (List.length_take_of_le h)

theorem take_two_of_upstreamReply_udp {upstream : Upstream} {raw reply : Bytes}
    (h : upstreamReply upstream raw .udp = some reply) : reply.take 2 = raw.take 2 := by
  simp only [upstreamReply] at h
  split at h
  · have hreply := List.find?_some h
    simp only [isReplyTo, Bool.and_eq_true, beq_iff_eq] at hreply
    exact hreply.2
  · cases h

theorem upstreamReply_tcp_iff (upstream : Upstream) (raw reply : Bytes) :
    upstreamReply upstream raw .tcp = some reply ↔
      ∃ stream rest, upstream.tcp = .answered stream ∧
        takeFrame 2 stream.bytes = some (reply, rest) := by
  simp only [upstreamReply]
  split
  · next stream hstream =>
    rw [Option.map_eq_some_iff]
    constructor
    · rintro ⟨⟨message, rest⟩, hframe, rfl⟩
      exact ⟨stream, rest, hstream, hframe⟩
    · rintro ⟨stream', rest, hstream', hframe⟩
      cases hstream.symm.trans hstream'
      exact ⟨(reply, rest), hframe, rfl⟩
  · next hother =>
    constructor
    · intro h
      cases h
    · rintro ⟨stream, rest, hstream, _⟩
      exact absurd hstream (hother stream)

/-- The reply of a query that is relayed carries an id if SERVFAIL does and all
that is taken for a reply. -/
theorem take_two_relayed_iff (upstream : Upstream) {query : Query} {raw : Bytes}
    (transport : Transport) (h : query.servfail.take 2 = raw.take 2) :
    ((upstreamReply upstream raw transport).getD query.servfail).take 2 = raw.take 2 ↔
      ∀ reply, upstreamReply upstream raw transport = some reply →
        reply.take 2 = raw.take 2 := by
  cases upstreamReply upstream raw transport with
  | none => simp [h]
  | some reply => simp

namespace Frontend

variable {cel : Cel} (front : Frontend cel) (upstream : Upstream) (proc : Option ProcFs)
  (raw : Bytes) (peer : SocketAddr) (transport : Transport) (server : SocketAddr)

theorem maySend_iff {query : Query} (h : Query.parse raw = .ok query) :
    front.MaySend proc raw peer transport server ↔
      front.relays.contains (front.callerOf proc transport peer server) = true ∨
      LetsThrough query.question.hostname (front.engine.evaluateFor query.question.hostname
        (front.callerOf proc transport peer server)) := by
  constructor
  · rintro ⟨query', h', hmay⟩
    cases h.symm.trans h'
    exact hmay
  · intro hmay
    exact ⟨query, h, hmay⟩

/-- Where the value of a reply comes from. -/
theorem value_respond_cases :
    (∃ e, Query.parse raw = .error e ∧
      (front.respond upstream proc raw peer transport server).value = formerr raw) ∨
    ∃ query, Query.parse raw = .ok query ∧
      ((front.MaySend proc raw peer transport server ∧
        (front.respond upstream proc raw peer transport server).value =
          (upstreamReply upstream raw transport).getD query.servfail) ∨
      (¬ front.MaySend proc raw peer transport server ∧
        ((front.respond upstream proc raw peer transport server).value = query.nxdomain ∨
        (front.respond upstream proc raw peer transport server).value =
          query.answer (upstreamResolve query.question.hostname)))) := by
  cases hparse : Query.parse raw with
  | error e => exact .inl ⟨e, rfl, by rw [respond_of_error _ _ _ _ _ _ _ hparse]; rfl⟩
  | ok query =>
    refine .inr ⟨query, rfl, ?_⟩
    have hraw := Query.raw_of_parse hparse
    rw [maySend_iff front proc raw peer transport server hparse]
    cases hrelay : front.relays.contains (front.callerOf proc transport peer server) with
    | true =>
      rw [respond_of_relay _ _ _ _ _ _ _ hparse hrelay, value_forward, hraw]
      exact .inl ⟨.inl rfl, rfl⟩
    | false =>
      rw [respond_of_judged _ _ _ _ _ _ _ hparse hrelay]
      simp only [Traced.value_bind, PolicyEngine.value_ask, Bool.false_eq_true, false_or]
      rw [← PolicyVerdict.decision_eq_forward_iff]
      cases hdecision : (front.engine.evaluateFor query.question.hostname
        (front.callerOf proc transport peer server)).decision query.question.hostname with
      | deny => exact .inr ⟨by simp, .inl rfl⟩
      | answer addrs =>
        have haddrs := ((PolicyVerdict.decision_eq_answer_iff _ _ _).mp hdecision).2.2
        exact .inr ⟨by simp, .inr (by rw [haddrs]; rfl)⟩
      | forward => exact .inl ⟨rfl, by rw [carryOut, value_forward, hraw]⟩

/-- A reply carries the id of its message, unless the message went upstream over
TCP and the first thing that came back does not. -/
theorem reply_id_iff (h : 2 ≤ raw.length) :
    (front.respond upstream proc raw peer transport server).value.take 2 = raw.take 2 ↔
      (transport = .tcp → front.MaySend proc raw peer transport server →
        ∀ stream reply rest, upstream.tcp = .answered stream →
          takeFrame 2 stream.bytes = some (reply, rest) → reply.take 2 = raw.take 2) := by
  rcases front.value_respond_cases upstream proc raw peer transport server with
    ⟨e, hparse, hvalue⟩ | ⟨query, hparse, ⟨hmay, hvalue⟩ | ⟨hmay, hvalue⟩⟩
  · rw [hvalue, take_two_formerr raw h, eq_self, true_iff]
    rintro - ⟨query, hquery, -⟩
    cases hparse.symm.trans hquery
  · have hservfail : query.servfail.take 2 = raw.take 2 :=
      Query.take_two_response_of_parse hparse _ _ _
    rw [hvalue, take_two_relayed_iff upstream transport hservfail]
    cases transport with
    | udp => simpa using fun reply => take_two_of_upstreamReply_udp
    | tcp =>
      simp only [upstreamReply_tcp_iff]
      constructor
      · intro hall _ _ stream reply rest hstream hframe
        exact hall reply ⟨stream, rest, hstream, hframe⟩
      · rintro hall reply ⟨stream, rest, hstream, hframe⟩
        exact hall trivial hmay stream reply rest hstream hframe
  · have hid : (front.respond upstream proc raw peer transport server).value.take 2 =
        raw.take 2 := by
      rcases hvalue with hvalue | hvalue
      · rw [hvalue, Query.nxdomain, Query.take_two_response_of_parse hparse]
      · rw [hvalue, Query.answer, Query.take_two_response_of_parse hparse]
    simp [hid, hmay]

/-- A query for the address of `a`. -/
def testQuery : Bytes := [0, 7, 1, 0, 0, 1, 0, 0, 0, 0, 0, 0, 1, 97, 0, 0, 1, 0, 1]

/-- A front-end of the small policy, with no relays. -/
def testFront : Frontend Cel.direct := ⟨false, PolicyEngine.testEngine, ⟨∅⟩⟩

theorem reply_id_stray_datagram :
    (testFront.respond ⟨.sent [[9, 9], [0, 7, 0]] none, .connectStall⟩ none testQuery
      ⟨loopback, 5000⟩ .udp ⟨loopback, 53⟩).value.take 2 = testQuery.take 2 := by
  refine (reply_id_iff testFront _ none testQuery _ .udp _ (by decide)).mpr ?_
  intro htcp
  cases htcp

/-- Over TCP the client gets a foreign message for a reply, or an empty one. -/
theorem reply_id_foreign :
    (testFront.respond ⟨.stall, .answered ⟨[0, 2, 9, 9], .eof⟩⟩ none testQuery
      ⟨loopback, 5000⟩ .tcp ⟨loopback, 53⟩).value = [9, 9] ∧
    (testFront.respond ⟨.stall, .answered ⟨[0, 0], .eof⟩⟩ none testQuery
      ⟨loopback, 5000⟩ .tcp ⟨loopback, 53⟩).value = [] ∧
    testQuery.take 2 = [0, 7] := by
  decide

end Frontend

theorem or_and_distrib (a b c : UInt16) : (a ||| b) &&& c = (a &&& c) ||| (b &&& c) := by
  apply UInt16.toBitVec_inj.mp
  ext i
  simp [Bool.and_or_distrib_right]

theorem or_and_self_left (a b : UInt16) : (a ||| b) &&& a = a := by
  apply UInt16.toBitVec_inj.mp
  ext i
  simp +contextual

/-- The response code, in the last four bits of the flags. -/
def rcode (reply : Bytes) : Option UInt16 := (be16 reply 2).map (fun flags => flags &&& 0x000F)

/-- The QR bit is set. -/
def IsResponse (message : Bytes) : Prop :=
  ∃ flags, be16 message 2 = some flags ∧ flags &&& flagQr ≠ 0

theorem Query.be16_response (query : Query) (rcode : UInt16) (answers : Bytes)
    (ancount : UInt16) : be16 (query.response rcode answers ancount) 2 =
      some (flagQr ||| (query.flags &&& flagOpcode) ||| (query.flags &&& flagRd) ||| flagRa |||
        rcode) := by
  rw [be16_eq_some_iff]
  simp only [response, List.append_assoc, drop_toBe16_append, take_toBe16_append]

@[simp] theorem Query.rcode_response (query : Query) (code : UInt16) (answers : Bytes)
    (ancount : UInt16) :
    rcode (query.response code answers ancount) = some (code &&& 0x000F) := by
  have hmask : ∀ m : UInt16, m &&& 0x000F = 0 → (query.flags &&& m) &&& 0x000F = 0 := by
    intro m hm
    rw [UInt16.and_assoc, hm, UInt16.and_zero]
  have hqr : flagQr &&& 0x000F = 0 := rfl
  have hra : flagRa &&& 0x000F = 0 := rfl
  rw [rcode, be16_response, Option.map_some, or_and_distrib, or_and_distrib, or_and_distrib,
    or_and_distrib, hmask _ rfl, hmask _ rfl, hqr, hra]
  simp

theorem Query.isResponse_response (query : Query) (rcode : UInt16) (answers : Bytes)
    (ancount : UInt16) : IsResponse (query.response rcode answers ancount) := by
  refine ⟨_, query.be16_response rcode answers ancount, ?_⟩
  rw [UInt16.or_assoc, UInt16.or_assoc, UInt16.or_assoc, or_and_self_left]
  decide

theorem isResponse_formerr (raw : Bytes) : IsResponse (formerr raw) := by
  have hid : (if 2 ≤ raw.length then raw.take 2 else [0, 0]).length = 2 := by
    split
    · next h => exact List.length_take_of_le h
    · rfl
  refine ⟨flagQr ||| rcodeFormerr, ?_, by decide⟩
  rw [be16_eq_some_iff, formerr, List.append_assoc, List.drop_left' hid, take_toBe16_append]

/-- A response is no query. -/
theorem IsResponse.parse_eq_error {message : Bytes} (h : IsResponse message) :
    ∃ e, Query.parse message = .error e := by
  cases hparse : Query.parse message with
  | error e => exact ⟨e, rfl⟩
  | ok query =>
    obtain ⟨rfl, labels, hreads⟩ := (Query.parse_eq_ok_iff message query).mp hparse
    obtain ⟨flags, hflags, hqr⟩ := h
    have hown := (be16_eq_some_iff query.raw 2 query.flags).mpr hreads.flags
    rw [hown, Option.some.injEq] at hflags
    rw [← hflags] at hqr
    exact absurd hreads.isQuery hqr

/-- A query is echoed with at most its question, which is short. -/
theorem Query.length_response_le {raw : Bytes} {query : Query} (h : parse raw = .ok query)
    (rcode : UInt16) (answers : Bytes) (ancount : UInt16) :
    (query.response rcode answers ancount).length ≤ 272 + answers.length := by
  obtain ⟨rfl, labels, hreads⟩ := (parse_eq_ok_iff raw query).mp h
  have hfits := hreads.fits
  have hquestion : query.questionBytes.length ≤ 260 := by
    rw [questionBytes, List.length_drop, List.length_take, hreads.endPos]
    omega
  simp only [response, List.length_append, length_toBe16]
  omega

theorem Query.length_record_le {query : Query} {addr : IpAddr} {record : Bytes}
    (h : query.record addr = some record) : record.length ≤ 28 := by
  obtain ⟨rdata, hrdata, rfl⟩ := Option.map_eq_some_iff.mp h
  have hlen : rdata.length ≤ 16 := by
    cases addr with
    | v4 a =>
      obtain ⟨_, heq⟩ := Option.ite_none_right_eq_some.mp hrdata
      rw [← Option.some.inj heq, a.length_octets]
      decide
    | v6 a =>
      obtain ⟨_, heq⟩ := Option.ite_none_right_eq_some.mp hrdata
      rw [← Option.some.inj heq, a.length_octets]
  simp only [List.length_append, length_toBe16, Octets.length_toBeBytes, List.length_cons,
    List.length_nil]
  omega

theorem Query.length_answer_le {raw : Bytes} {query : Query} (h : parse raw = .ok query)
    (addrs : List IpAddr) : (query.answer addrs).length ≤ 272 + 28 * addrs.length := by
  have hrecords : ((addrs.filterMap query.record).flatten).length ≤ 28 * addrs.length := by
    induction addrs with
    | nil => exact le_rfl
    | cons addr addrs ih =>
      cases hrecord : query.record addr with
      | none =>
        rw [List.filterMap_cons_none hrecord, List.length_cons]
        omega
      | some record =>
        have hle := length_record_le hrecord
        rw [List.filterMap_cons_some hrecord, List.flatten_cons, List.length_append,
          List.length_cons]
        omega
  have hle := length_response_le h rcodeNoerror (addrs.filterMap query.record).flatten
    (UInt16.ofNat (addrs.filterMap query.record).length)
  rw [answer]
  omega

theorem length_upstreamResolve_le (hostname : Str) : (upstreamResolve hostname).length ≤ 1 := by
  unfold upstreamResolve
  split <;> simp

theorem length_upstreamReply_le {upstream : Upstream} {raw reply : Bytes} {transport : Transport}
    (h : upstreamReply upstream raw transport = some reply) : reply.length ≤ maxMessage := by
  cases transport with
  | udp =>
    simp only [upstreamReply] at h
    split at h
    · obtain ⟨datagram, _, rfl⟩ := List.mem_map.mp (List.mem_of_find?_eq_some h)
      rw [List.length_take]
      exact Nat.min_le_left _ _
    · cases h
  | tcp =>
    obtain ⟨stream, rest, _, hframe⟩ := (upstreamReply_tcp_iff upstream raw reply).mp h
    have hlt := ((Framing.takeFrame_eq_some_iff _ _ _ _).mp hframe).1
    simp only [maxMessage]
    omega

/-- No reply is too long for its length to be sent ahead of it. -/
theorem Frontend.length_respond_le {cel : Cel} (front : Frontend cel) (upstream : Upstream)
    (proc : Option ProcFs) (raw : Bytes) (peer : SocketAddr) (transport : Transport)
    (server : SocketAddr) :
    (front.respond upstream proc raw peer transport server).value.length ≤ maxMessage := by
  rcases front.value_respond_cases upstream proc raw peer transport server with
    ⟨e, hparse, hvalue⟩ | ⟨query, hparse, ⟨_, hvalue⟩ | ⟨_, hvalue | hvalue⟩⟩
  · have hid : (if 2 ≤ raw.length then raw.take 2 else [0, 0]).length ≤ 2 := by
      split
      · exact List.length_take_le 2 raw
      · exact le_rfl
    rw [hvalue, formerr, List.length_append, List.length_append, length_toBe16,
      List.length_replicate, maxMessage]
    omega
  · rw [hvalue]
    cases hreply : upstreamReply upstream raw transport with
    | none => exact (query.length_response_le hparse _ _ _).trans (by simp [maxMessage])
    | some reply => exact length_upstreamReply_le hreply
  · rw [hvalue]
    exact (query.length_response_le hparse _ _ _).trans (by simp [maxMessage])
  · have hone := length_upstreamResolve_le query.question.hostname
    have hle := query.length_answer_le hparse (upstreamResolve query.question.hostname)
    rw [hvalue, maxMessage]
    omega

end Deezns.Dns
