import Deezns.Frontends
import Deezns.Io

/-!
# The policy socket

One JSON request per line, from a peer whose credentials the kernel vouches
for. The JSON library is a parameter: a reader of requests and a writer of
responses.
-/
namespace Deezns.Daemon

open Octets (Bytes)
open Utf8 (Str)

structure ResolveRequest where
  hostname : Str
  deriving DecidableEq, Repr

inductive ResolveResponse where
  | denied (reason : Str)
  | passThrough
  | resolved (addresses : List IpAddr)
  deriving DecidableEq, Repr

/-- `serde_json`, on the two types of message. -/
structure Json where
  fromStr : Str → Option ResolveRequest
  toVec : ResolveResponse → Except IoError Bytes

variable {cel : Cel}

/-- The response to one request; a relay's lookups are not judged again. -/
def response (engine : PolicyEngine cel) (relays : Relays) (caller : Caller)
    (req : ResolveRequest) : ResolveResponse :=
  if relays.contains caller then .passThrough
  else
    match engine.evaluateFor req.hostname caller with
    | .denied reason => .denied reason
    | .passThrough => .passThrough
    | .allowed =>
      let addrs := upstreamResolve req.hostname
      if addrs.isEmpty then .passThrough else .resolved addrs

/-- The lines written on a connection, to a client that reads them, and how it
ends: a line that is no request is passed over, an error ends it. -/
def handleConnection (json : Json) (engine : PolicyEngine cel) (relays : Relays)
    (caller : Caller) : Lines → List Bytes × Except IoError Unit
  | [] => ([], .ok ())
  | .error e :: _ => ([], .error e)
  | .ok line :: rest =>
    match json.fromStr line with
    | none => handleConnection json engine relays caller rest
    | some req =>
      match json.toVec (response engine relays caller req) with
      | .error e => ([], .error e)
      | .ok buf =>
        let (written, result) := handleConnection json engine relays caller rest
        ((buf ++ [0x0A]) :: written, result)

end Deezns.Daemon
