import Deezns.Frontends
import Deezns.Io

/-!
# The nscd front-end

Requests and replies follow glibc's nscd protocol: a header of native-endian
`i32`s and what it announces. Host lookups are judged; whatever is forwarded
goes to the real nscd byte for byte, and its answer to a host lookup is checked
before it is relayed.
-/
namespace Deezns.Nscd

open Octets (Bytes NativeEndian readNe writeNe)
open Utf8 (Str)
open Text

def version : Int32 := 2
def maxKeyLen : Nat := 1024
def headerLen : Nat := 12
def hostNotFound : Int32 := 1
def tryAgain : Int32 := 2
def noData : Int32 := 4
def aiHeaderLen : Nat := 24
def hstHeaderLen : Nat := 32
def afInet : Int32 := 2
def afInet6 : Int32 := 10

/-- `request_type`, in declaration order. -/
inductive RequestType where
  | getPwByName | getPwByUid | getGrByName | getGrByGid | getHostByName | getHostByNameV6
  | getHostByAddr | getHostByAddrV6 | shutdown | getStat | invalidate | getFdPw | getFdGr
  | getFdHst | getAi | initGroups | getServByName | getServByPort | getFdServ | getNetGrEnt
  | inNetGr | getFdNetGr
  deriving DecidableEq, Repr

namespace RequestType

def all : List RequestType :=
  [getPwByName, getPwByUid, getGrByName, getGrByGid, getHostByName, getHostByNameV6,
    getHostByAddr, getHostByAddrV6, shutdown, getStat, invalidate, getFdPw, getFdGr, getFdHst,
    getAi, initGroups, getServByName, getServByPort, getFdServ, getNetGrEnt, inNetGr, getFdNetGr]

def fromI32 (v : Int32) : Option RequestType :=
  if v.toInt < 0 then none else all[v.toInt.toNat]?

def asI32 (ty : RequestType) : Int32 := Int32.ofNat (all.idxOf ty)

/-- Requests whose key is a host name the policy applies to. -/
def isHostLookup : RequestType → Bool
  | getHostByName => true
  | getHostByNameV6 => true
  | getAi => true
  | _ => false

end RequestType

/-- One request as received: parsed to route it, and kept to forward it. -/
structure Request where
  ty : RequestType
  key : Bytes
  raw : Bytes
  deriving DecidableEq, Repr

/-- A name without the NUL it may end in: `strip_suffix(b"\0")`. -/
def stripNul (key : Bytes) : Bytes := if key.getLast? = some 0 then key.dropLast else key

/-- The key as a host name: NUL-terminated UTF-8, and not empty. -/
def Request.hostname (request : Request) : Option Str :=
  (Utf8.decode (stripNul request.key)).filter (fun s => !s.isEmpty)

section
variable [NativeEndian]

/-- A request the way glibc's client serializes it. -/
def Request.encode (ty : RequestType) (key : Bytes) : Bytes :=
  writeNe [version, ty.asI32, Int32.ofNat key.length] ++ key

def Request.parse (bytes : Bytes) : Except String Request :=
  if bytes.length < headerLen then .error s!"request too short: {bytes.length} bytes"
  else if readNe bytes 0 ≠ version then
    .error s!"unsupported protocol version {readNe bytes 0}"
  else
    match RequestType.fromI32 (readNe bytes 4) with
    | none => .error s!"unknown request type {readNe bytes 4}"
    | some ty =>
      if (readNe bytes 8).toInt < 0 then .error "negative key length"
      else
        let keyLen := (readNe bytes 8).toInt.toNat
        if maxKeyLen < keyLen then .error s!"key length {keyLen} exceeds {maxKeyLen}"
        else if bytes.length ≠ headerLen + keyLen then
          .error s!"key length {keyLen} does not match {bytes.length - headerLen} bytes of key"
        else .ok ⟨ty, bytes.drop headerLen, bytes⟩

/-- Read a request off a connection, which is left behind it. -/
def readRequest (stream : Stream) : Async (Request × Stream) :=
  match stream.readExact headerLen with
  | none => none
  | some (.error e) => some (.error e)
  | some (.ok (header, stream)) =>
    let keyLen := (readNe header 8).toInt
    if keyLen < 0 ∨ maxKeyLen < keyLen.toNat then
      some (.error (.new .invalidData "bad key length"))
    else
      match stream.readExact keyLen.toNat with
      | none => none
      | some (.error e) => some (.error e)
      | some (.ok (key, stream)) =>
        match Request.parse (header ++ key) with
        | .error e => some (.error (.new .invalidData e))
        | .ok request => some (.ok (request, stream))

def addressBytes : IpAddr → Bytes
  | .v4 a => a.octets
  | .v6 a => a.octets

def addressFamily : IpAddr → Int32
  | .v4 _ => afInet
  | .v6 _ => afInet6

/-- `ai_response_header`, the packed addresses, their families and the name. -/
def aiReply (found error : Int32) (canon : Str) (addrs : List IpAddr) : Bytes :=
  let packed := addrs.flatMap addressBytes
  let families := addrs.map (fun a => (addressFamily a).toUInt32.toUInt8)
  let canonLen := if found = 1 then byteLen canon + 1 else 0
  writeNe [version, found, Int32.ofNat addrs.length, Int32.ofNat packed.length,
      Int32.ofNat canonLen, error] ++
    if found = 1 then packed ++ families ++ Utf8.encode canon ++ [0] else []

def aiNotFound (error : Int32) : Bytes := aiReply 0 error [] []

def aiFound (canon : Str) (addrs : List IpAddr) : Bytes := aiReply 1 0 canon addrs

/-- `hst_response_header`, the name and the addresses; there are no aliases. -/
def hstReply (found error : Int32) (name : Str) (family : Int32) (addrs : List IpAddr) : Bytes :=
  let length : Int32 := if family = afInet6 then 16 else 4
  writeNe [version, found, if found = 1 then Int32.ofNat (byteLen name) + 1 else 0, 0,
      if found = 1 then family else -1, if found = 1 then length else -1,
      if found = 1 then Int32.ofNat addrs.length else 0, error] ++
    if found = 1 then Utf8.encode name ++ [0] ++ addrs.flatMap addressBytes else []

def hstNotFound (error : Int32) : Bytes := hstReply 0 error [] (-1) []

/-- A positive reply with the addresses of one family, if there are any. -/
def hstFound (name : Str) (family : Int32) (addrs : List IpAddr) : Option Bytes :=
  let matching := addrs.filter (fun a => addressFamily a == family)
  if matching.isEmpty then none else some (hstReply 1 0 name family matching)

def notFound (ty : RequestType) (error : Int32) : Bytes :=
  match ty with
  | .getAi => aiNotFound error
  | _ => hstNotFound error

def found (ty : RequestType) (name : Str) (addrs : List IpAddr) : Bytes :=
  match ty with
  | .getAi => aiFound name addrs
  | .getHostByName => (hstFound name afInet addrs).getD (hstNotFound noData)
  | _ => (hstFound name afInet6 addrs).getD (hstNotFound noData)

/-- The integer at an offset of a reply, if the reply goes that far. -/
def intAt (reply : Bytes) (pos : Nat) : Option Int :=
  if pos + 4 ≤ reply.length then some (readNe reply pos).toInt else none

/-- Whether bytes are a complete positive or negative answer to a host request. -/
def validHostReply (ty : RequestType) (reply : Bytes) : Bool :=
  match intAt reply 0, intAt reply 4 with
  | some ver, some found =>
    if ver ≠ version.toInt then false
    else
      let len : Int := reply.length
      match ty with
      | .getAi =>
        if len < aiHeaderLen then false
        else if found = 0 then true
        else if found = 1 then
          match intAt reply 8, intAt reply 12, intAt reply 16 with
          | some naddrs, some addrslen, some canonlen =>
            0 ≤ naddrs && 0 ≤ addrslen && 0 ≤ canonlen &&
              len = aiHeaderLen + naddrs + addrslen + canonlen
          | _, _, _ => false
        else false
      | _ =>
        if len < hstHeaderLen then false
        else if found = 0 then true
        else if found = 1 then
          match intAt reply 8, intAt reply 12, intAt reply 20, intAt reply 24 with
          | some nameLen, some aliasesCnt, some length, some addrCnt =>
            -- the aliases have their lengths in the body, so this is a lower bound
            0 ≤ nameLen && 0 ≤ aliasesCnt && 0 ≤ addrCnt && (length = 4 || length = 16) &&
              hstHeaderLen + nameLen + aliasesCnt * 4 + addrCnt * length ≤ len
          | _, _, _, _ => false
        else false
  | _, _ => false

/-- What to send back: bytes, or nothing before closing. -/
inductive Reply where
  | bytes (bytes : Bytes)
  | close
  deriving DecidableEq, Repr

/-- What the real nscd does with a connection, as far as the deadline lets it
be seen. A write may fail or stall after some bytes; else the answer is read
to its end. -/
inductive Upstream where
  | connectError (e : IoError)
  | connectStall
  | writeError (written : Nat) (e : IoError)
  | writeStall (written : Nat)
  | answered (stream : Stream)
  deriving DecidableEq, Repr

def timedOut : IoError := .new .timedOut "upstream nscd did not answer in time"

/-- Send the request verbatim to the real nscd and collect its reply. -/
def forward (upstream : Upstream) (request : Request) : Effect (Except IoError Bytes) :=
  match upstream with
  | .connectError e => return .error e
  | .connectStall => return .error timedOut
  | .writeError written e => do
    Traced.emit (.sent (request.raw.take written))
    return .error e
  | .writeStall written => do
    Traced.emit (.sent (request.raw.take written))
    return .error timedOut
  | .answered stream => do
    Traced.emit (.sent request.raw)
    match stream.ending with
    | .eof => return .ok stream.bytes
    | .error e => return .error e
    | .stall => return .error timedOut

def forwardHost (upstream : Upstream) (request : Request) : Effect Reply := do
  match ← forward upstream request with
  | .ok bytes =>
    if validHostReply request.ty bytes then return .bytes bytes
    else return .bytes (notFound request.ty tryAgain)
  | .error _ => return .bytes (notFound request.ty tryAgain)

variable {cel : Cel}

/-- Decide what a request gets: an answer of our own, or the upstream's. -/
def replyFor (engine : PolicyEngine cel) (upstream : Upstream) (request : Request)
    (caller : Caller) : Effect Reply :=
  if !request.ty.isHostLookup then do
    match ← forward upstream request with
    | .ok bytes => return .bytes bytes
    | .error _ => return .close
  else
    match request.hostname with
    | none => return .close
    | some hostname => do
      match ← engine.ask hostname caller with
      | .denied _ => return .bytes (notFound request.ty hostNotFound)
      | .passThrough => forwardHost upstream request
      | .allowed =>
        let addrs := upstreamResolve hostname
        if addrs.isEmpty then forwardHost upstream request
        else return .bytes (found request.ty hostname addrs)

/-- One connection: a request that does not come, or is not one, closes it. -/
def handle (engine : PolicyEngine cel) (upstream : Upstream) (client : Stream) (caller : Caller) :
    Effect Reply :=
  match readRequest client with
  | none => return .close
  | some (.error _) => return .close
  | some (.ok (request, _)) => replyFor engine upstream request caller

end

end Deezns.Nscd
