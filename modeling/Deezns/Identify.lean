import Deezns.Address
import Deezns.Best
import Deezns.Policy

/-!
# Who owns a local socket

A peer is looked up in the socket tables: rows that cannot be the sender are
passed over, and of the others those that fit best are kept. The owner's
process, if asked for, is searched among the open descriptors.
-/
namespace Deezns

/-- The transport a query arrived over, which decides the socket tables. -/
inductive Transport where
  | udp | tcp
  deriving DecidableEq, Repr

/-- A row of a socket table; `0.0.0.0:0` is the remote of an unconnected one. -/
structure SocketEntry where
  localAddr : SocketAddr
  remoteAddr : SocketAddr
  uid : UInt32
  inode : UInt64
  deriving DecidableEq, Repr

inductive SocketMatch where
  | one (entry : SocketEntry)
  | sameUser (uid : UInt32)
  | ambiguous
  | none
  deriving DecidableEq, Repr

inductive FdTarget where
  | socket (inode : UInt64)
  | other
  deriving DecidableEq, Repr

/-- A process: what reading its descriptors and its status gives, `none` for an error. -/
structure Process where
  pid : Int32
  fd : Option (List (Option FdTarget))
  egid : Option UInt32

/-- What `/proc` shows while a peer is looked up. -/
structure ProcFs where
  udp : Option (List SocketEntry)
  udp6 : Option (List SocketEntry)
  tcp : Option (List SocketEntry)
  tcp6 : Option (List SocketEntry)
  myself : Option Process
  allProcesses : Option (List (Option Process))
  /-- Process 1, as the first lookup of all found it. -/
  init : Option Process

namespace ProcFs

/-- A table that cannot be read is empty. -/
def table (result : Option (List SocketEntry)) : List SocketEntry := result.getD []

/-- Both tables of a transport, whatever the peer's family. -/
def socketTables (proc : ProcFs) : Transport → List SocketEntry
  | .udp => table proc.udp ++ table proc.udp6
  | .tcp => table proc.tcp ++ table proc.tcp6

def canInspectOtherProcesses (proc : ProcFs) : Bool :=
  match proc.init.bind Process.fd with
  | some (fd :: _) => fd.isSome
  | some [] => false
  | none => false

end ProcFs

def sameHost (a b : IpAddr) : Bool := a.toCanonical == b.toCanonical

namespace SocketEntry

def localExact (entry : SocketEntry) (peer : SocketAddr) : Bool :=
  sameHost entry.localAddr.ip peer.ip

def unconnected (entry : SocketEntry) : Bool :=
  entry.remoteAddr.port == 0 && entry.remoteAddr.ip.isUnspecified

def remoteExact (entry : SocketEntry) (server : SocketAddr) : Bool :=
  entry.remoteAddr.port == server.port &&
    (server.ip.isUnspecified || sameHost entry.remoteAddr.ip server.ip)

/-- How well a row fits a packet from `peer` to `server`, if it can be the sender. -/
def fit (entry : SocketEntry) (peer server : SocketAddr) : Option Nat :=
  if entry.localAddr.port != peer.port then none
  else if !entry.localExact peer && !entry.localAddr.ip.isUnspecified then none
  else if !entry.unconnected && !entry.remoteExact server then none
  else some ((entry.remoteExact server).toNat * 2 + (entry.localExact peer).toNat)

end SocketEntry

/-- What the rows that fit best say of their owner. -/
def SocketMatch.ofBest : List SocketEntry → SocketMatch
  | [] => .none
  | [entry] => .one entry
  | first :: rest =>
    if rest.all (fun e => e.uid == first.uid) then .sameUser first.uid else .ambiguous

def findSocket (entries : List SocketEntry) (peer server : SocketAddr) : SocketMatch :=
  SocketMatch.ofBest (Best.scan (fun entry => entry.fit peer server) 0 entries)

/-- The process holding the socket with this inode, if it can be found. -/
def processWithSocket (proc : ProcFs) (inode : UInt64) : Option Process :=
  let holds := fun (process : Process) =>
    process.fd.any (fun fds => (fds.filterMap id).any (fun target => target == .socket inode))
  if proc.canInspectOtherProcesses then
    proc.allProcesses.bind (fun processes => (processes.filterMap id).find? holds)
  else proc.myself.filter holds

/-- The caller behind a peer: the uid from the tables, and with `processes` the
gid and pid of the owning process when that is found. -/
def identify (proc : ProcFs) (transport : Transport) (peer server : SocketAddr)
    (processes : Bool) : Caller :=
  match findSocket (proc.socketTables transport) peer server with
  | .one socket =>
    if processes then
      let process := processWithSocket proc socket.inode
      ⟨some socket.uid, process.bind Process.egid, process.map Process.pid⟩
    else ⟨some socket.uid, none, none⟩
  | .sameUser uid => ⟨some uid, none, none⟩
  | .ambiguous => .unknown
  | .none => .unknown

end Deezns
