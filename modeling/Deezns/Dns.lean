import Deezns.Frontends
import Deezns.Identify
import Deezns.Io

/-!
# The DNS front-end

Only the header and the one question of a query are read. Denied names get
NXDOMAIN, the daemon's own records are answered, and everything else goes to
the upstream server unchanged, over the transport it came by.
-/
namespace Deezns.Dns

open Octets (Bytes toBeBytes fromBeBytes)
open Utf8 (Str)
open Text

def typeA : UInt16 := 1
def typeAaaa : UInt16 := 28
def classIn : UInt16 := 1
def rcodeNoerror : UInt16 := 0
def rcodeFormerr : UInt16 := 1
def rcodeServfail : UInt16 := 2
def rcodeNxdomain : UInt16 := 3
def flagQr : UInt16 := 0x8000
def flagOpcode : UInt16 := 0x7800
def flagRd : UInt16 := 0x0100
def flagRa : UInt16 := 0x0080
def headerLen : Nat := 12
def maxMessage : Nat := 65535
def answerTtl : UInt32 := 60

/-- The one question of a query, and where it ends in the message. -/
structure Question where
  /-- Lower-cased, without the trailing dot; empty for the root. -/
  name : Str
  qtype : UInt16
  qclass : UInt16
  endPos : Nat
  deriving DecidableEq, Repr

structure Query where
  id : UInt16
  flags : UInt16
  question : Question
  raw : Bytes
  deriving DecidableEq, Repr

inductive ParseError where
  | tooShort
  | notAQuery
  | questionCount (qdcount : UInt16)
  | badName
  deriving DecidableEq, Repr

def be16 (bytes : Bytes) (pos : Nat) : Option UInt16 :=
  match bytes[pos]?, bytes[pos + 1]? with
  | some hi, some lo => some (UInt16.ofNat (fromBeBytes [hi, lo]))
  | _, _ => none

/-- The bytes of a 16-bit integer on the wire. -/
def toBe16 (v : UInt16) : Bytes := toBeBytes 2 v.toNat

/-- The loop over the labels of a name. It moves on by a byte at least, so the
length of the message is fuel enough. -/
def parseName (raw : Bytes) : Nat → Nat → List Str → Except ParseError (List Str × Nat)
  | 0, _, _ => .error .badName
  | fuel + 1, pos, labels =>
    match raw[pos]? with
    | none => .error .badName
    | some b =>
      let len := b.toNat
      let start := pos + 1
      if len = 0 then .ok (labels, start)
      -- compression pointers have no business in a question
      else if 63 < len then .error .badName
      else if raw.length < start + len then .error .badName
      else if 255 < start + len - headerLen then .error .badName
      else
        parseName raw fuel (start + len)
          (labels ++ [toAsciiLowercase (Utf8.decodeLossy ((raw.drop start).take len))])

namespace Query

/-- A query with exactly one question; anything else is refused. -/
def parse (raw : Bytes) : Except ParseError Query :=
  if raw.length < headerLen then .error .tooShort
  else
    match be16 raw 0, be16 raw 2, be16 raw 4 with
    | some id, some flags, some qdcount =>
      if flags &&& flagQr ≠ 0 then .error .notAQuery
      else if qdcount ≠ 1 then .error (.questionCount qdcount)
      else
        match parseName raw (raw.length + 1) headerLen [] with
        | .error e => .error e
        | .ok (labels, pos) =>
          match be16 raw pos, be16 raw (pos + 2) with
          | some qtype, some qclass =>
            .ok ⟨id, flags, ⟨['.'].intercalate labels, qtype, qclass, pos + 4⟩, raw⟩
          | _, _ => .error .tooShort
    | _, _, _ => .error .tooShort

/-- The question section as it appeared in the query. -/
def questionBytes (query : Query) : Bytes := (query.raw.take query.question.endPos).drop headerLen

/-- A response with the question echoed back: QR and RA set, opcode and RD copied. -/
def response (query : Query) (rcode : UInt16) (answers : Bytes) (ancount : UInt16) : Bytes :=
  let flags := flagQr ||| (query.flags &&& flagOpcode) ||| (query.flags &&& flagRd) ||| flagRa |||
    rcode
  toBe16 query.id ++ toBe16 flags ++ toBe16 1 ++ toBe16 ancount ++ toBe16 0 ++ toBe16 0 ++
    query.questionBytes ++ answers

def nxdomain (query : Query) : Bytes := query.response rcodeNxdomain [] 0

def servfail (query : Query) : Bytes := query.response rcodeServfail [] 0

/-- The record of an address, if it is of the type asked for. -/
def record (query : Query) (addr : IpAddr) : Option Bytes :=
  let rdata : Option Bytes :=
    match addr with
    | .v4 a => if query.question.qtype = typeA then some a.octets else none
    | .v6 a => if query.question.qtype = typeAaaa then some a.octets else none
  rdata.map (fun rdata =>
    -- the name is a pointer to the question's, at offset 12
    [0xC0, 12] ++ toBe16 query.question.qtype ++ toBe16 classIn ++
      toBeBytes 4 answerTtl.toNat ++ toBe16 (UInt16.ofNat rdata.length) ++ rdata)

/-- NOERROR with the addresses of the question's type, if any. -/
def answer (query : Query) (addrs : List IpAddr) : Bytes :=
  let records := addrs.filterMap query.record
  query.response rcodeNoerror records.flatten (UInt16.ofNat records.length)

end Query

/-- FORMERR for a message that is no query: its id is echoed when it has one. -/
def formerr (raw : Bytes) : Bytes :=
  (if 2 ≤ raw.length then raw.take 2 else [0, 0]) ++ toBe16 (flagQr ||| rcodeFormerr) ++
    List.replicate 8 0

/-- What happens on a UDP socket towards the upstream server, up to the
deadline: the datagram is sent or not, and others arrive until an error or
silence. -/
inductive UdpUpstream where
  | failed (e : IoError)
  | stall
  | sent (arriving : List Bytes) (last : Option IoError)
  deriving DecidableEq, Repr

/-- What the upstream server does with a TCP connection, up to the deadline. -/
inductive TcpUpstream where
  | connectError (e : IoError)
  | connectStall
  | writeError (written : Nat) (e : IoError)
  | writeStall (written : Nat)
  | answered (stream : Stream)
  deriving DecidableEq, Repr

structure Upstream where
  udp : UdpUpstream
  tcp : TcpUpstream
  deriving DecidableEq, Repr

/-- One length-prefixed message and what follows it, or `none` at the end of the stream. -/
def readTcpMessage (stream : Stream) : Async (Option (Bytes × Stream)) :=
  match stream.readExact 2 with
  | none => none
  | some (.error e) => if e.isUnexpectedEof then some (.ok none) else some (.error e)
  | some (.ok (len, stream)) =>
    match stream.readExact (fromBeBytes len) with
    | none => none
    | some (.error e) => some (.error e)
    | some (.ok (message, stream)) => some (.ok (some (message, stream)))

/-- Only the answer to our question, not a stray datagram. -/
def isReplyTo (raw datagram : Bytes) : Bool :=
  2 ≤ datagram.length && datagram.take 2 == raw.take 2

def forwardUdp (upstream : UdpUpstream) (raw : Bytes) : Effect (Async Bytes) :=
  match upstream with
  | .failed e => return some (.error e)
  | .stall => return none
  | .sent arriving last => do
    Traced.emit (.sent raw)
    match (arriving.map (List.take maxMessage)).find? (isReplyTo raw) with
    | some reply => return some (.ok reply)
    | none => return last.map Except.error

/-- The length prefix of a message over TCP. -/
def lengthPrefix (raw : Bytes) : Bytes := toBeBytes 2 raw.length

/-- The two writes of a message, of which so many bytes are accepted. -/
def writePart (raw : Bytes) (written : Nat) : Effect Unit :=
  if written < 2 then Traced.emit (.sent ((lengthPrefix raw).take written))
  else do
    Traced.emit (.sent (lengthPrefix raw))
    Traced.emit (.sent (raw.take (written - 2)))

def forwardTcp (upstream : TcpUpstream) (raw : Bytes) : Effect (Async Bytes) :=
  match upstream with
  | .connectError e => return some (.error e)
  | .connectStall => return none
  | .writeError written e => do
    writePart raw written
    return some (.error e)
  | .writeStall written => do
    writePart raw written
    return none
  | .answered stream => do
    Traced.emit (.sent (lengthPrefix raw))
    Traced.emit (.sent raw)
    match readTcpMessage stream with
    | none => return none
    | some (.error e) => return some (.error e)
    | some (.ok none) =>
      return some (.error (.new .unexpectedEof "upstream closed without a reply"))
    | some (.ok (some (reply, _))) => return some (.ok reply)

/-- Relay the query over the client's transport; SERVFAIL for no reply in time. -/
def forward (upstream : Upstream) (query : Query) (transport : Transport) : Effect Bytes := do
  let relayed ← match transport with
    | .udp => forwardUdp upstream.udp query.raw
    | .tcp => forwardTcp upstream.tcp query.raw
  match relayed with
  | some (.ok reply) => return reply
  | some (.error _) => return query.servfail
  | none => return query.servfail

variable {cel : Cel}

structure Frontend (cel : Cel) where
  identifyProcesses : Bool
  engine : PolicyEngine cel
  relays : Relays

/-- The caller behind a peer; unknown when the task that looks it up fails. -/
def Frontend.callerOf (front : Frontend cel) (proc : Option ProcFs) (transport : Transport)
    (peer server : SocketAddr) : Caller :=
  match proc with
  | some proc => identify proc transport peer server front.identifyProcesses
  | none => .unknown

/-- The name the policy knows a question by: the root is `"."`. -/
def Question.hostname (question : Question) : Str :=
  if question.name.isEmpty then ".".toList else question.name

/-- The reply to one message from `peer`, received on `server`. -/
def Frontend.respond (front : Frontend cel) (upstream : Upstream) (proc : Option ProcFs)
    (raw : Bytes) (peer : SocketAddr) (transport : Transport) (server : SocketAddr) :
    Effect Bytes :=
  match Query.parse raw with
  | .error _ => return formerr raw
  | .ok query => do
    let caller := front.callerOf proc transport peer server
    let hostname := query.question.hostname
    if front.relays.contains caller then forward upstream query transport
    else
      match ← front.engine.ask hostname caller with
      | .denied _ => return query.nxdomain
      | .passThrough => forward upstream query transport
      | .allowed =>
        let addrs := upstreamResolve hostname
        if addrs.isEmpty then forward upstream query transport
        else return query.answer addrs

end Deezns.Dns
