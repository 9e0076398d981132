import Deezns.Answers
import Deezns.Decoding
import Deezns.Denials
import Deezns.HostsChain

/-!
# What the clients see

The clients of the three front-ends read replies in three formats. Where the policy
settles a lookup they all read the same thing, whatever the next resolver does.
-/
namespace Deezns

open Octets (Bytes NativeEndian readNe)
open Utf8 (Str)

/-- The families that all clients can ask for. -/
inductive Family where
  | ipv4 | ipv6
  deriving DecidableEq, Repr

namespace Family

def fits : Family → IpAddr → Bool
  | .ipv4, addr => Nss.isIpv4 addr
  | .ipv6, addr => !Nss.isIpv4 addr

def qtype : Family → UInt16
  | .ipv4 => Dns.typeA
  | .ipv6 => Dns.typeAaaa

def requestType : Family → Nscd.RequestType
  | .ipv4 => .getHostByName
  | .ipv6 => .getHostByNameV6

def nscd : Family → Int32
  | .ipv4 => Nscd.afInet
  | .ipv6 => Nscd.afInet6

def nss : Family → Nss.AddressFamily
  | .ipv4 => .ipv4
  | .ipv6 => .ipv6

theorem isHostLookup_requestType (family : Family) :
    family.requestType.isHostLookup = true := by
  cases family <;> rfl

theorem requestType_ne_getAi (family : Family) : family.requestType ≠ .getAi := by
  cases family <;> decide

theorem fitting_nss (family : Family) (addrs : List IpAddr) :
    Nss.fitting addrs family.nss = addrs.filter family.fits := by
  cases family <;> rfl

theorem addressFamily_eq_nscd (family : Family) (addr : IpAddr) :
    (Nscd.addressFamily addr == family.nscd) = family.fits addr := by
  cases family <;> cases addr <;> rfl

end Family

/-- What a client makes of a reply. -/
inductive Seen where
  | addresses (addrs : List IpAddr)
  | noAddress
  | noName
  | trouble
  deriving DecidableEq, Repr

namespace Family

/-- The addresses of the family, if there are any. -/
def seen (family : Family) (addrs : List IpAddr) : Seen :=
  if addrs.filter family.fits = [] then .noAddress else .addresses (addrs.filter family.fits)

/-- What a client is to be told, unless the next resolver tells it. -/
def told (family : Family) : Decision → Option Seen
  | .deny => some .noName
  | .answer addrs => some (family.seen addrs)
  | .forward => none

end Family

namespace Nscd

section
variable [NativeEndian]

/-- A reply to `GETHOSTBYNAME`, or to its sibling for IPv6. -/
def sees (reply : Bytes) : Seen :=
  match decodeHst reply with
  | some (_, addrs) => .addresses addrs
  | none =>
    if errorOf .getHostByName reply = hostNotFound then .noName
    else if errorOf .getHostByName reply = noData then .noAddress
    else .trouble

theorem decodeHst_hstNotFound (error : Int32) : decodeHst (hstNotFound error) = none := by
  have hfound : readNe (hstNotFound error) 4 = 0 := Octets.readNe_writeNe _ _ 1 (by simp)
  have hne : ¬ readNe (hstNotFound error) 4 = 1 := by
    rw [hfound]
    decide
  simp only [decodeHst]
  exact if_neg fun h => hne h.2.1

theorem sees_hstNotFound (error : Int32) : sees (hstNotFound error) =
    if error = hostNotFound then .noName else if error = noData then .noAddress
    else .trouble := by
  have herror : errorOf .getHostByName (hstNotFound error) = error :=
    errorOf_hstReply (by decide) 0 error [] (-1) []
  rw [sees, decodeHst_hstNotFound, herror]

theorem notFound_requestType (family : Family) (error : Int32) :
    notFound family.requestType error = hstNotFound error :=
  notFound_of_ne_getAi family.requestType_ne_getAi error

theorem sees_found (family : Family) {name : Str} (hname : '\x00' ∉ name) (addrs : List IpAddr)
    (hsize : (found family.requestType name addrs).length < 2 ^ 31) :
    sees (found family.requestType name addrs) = family.seen addrs := by
  have hfound : found family.requestType name addrs =
      (hstFound name family.nscd addrs).getD (hstNotFound noData) := by
    cases family <;> rfl
  rw [hfound] at hsize ⊢
  obtain ⟨hnone, hsome⟩ := hstFound_decodes hname family.nscd addrs hsize
  have hfits : addrs.filter (fun addr => addressFamily addr == family.nscd) =
      addrs.filter family.fits :=
    List.filter_congr fun addr _ => family.addressFamily_eq_nscd addr
  rw [Family.seen]
  by_cases hnil : addrs.filter family.fits = []
  · have hnot : ∀ addr ∈ addrs, addressFamily addr ≠ family.nscd := by
      intro addr haddr heq
      have hmem : addr ∈ addrs.filter (fun addr => addressFamily addr == family.nscd) :=
        List.mem_filter.mpr ⟨haddr, beq_iff_eq.mpr heq⟩
      rw [hfits, hnil] at hmem
      cases hmem
    rw [if_pos hnil, hnone.mpr hnot, sees_hstNotFound, if_neg (by decide), if_pos rfl]
  · obtain ⟨addr, hmem⟩ := List.exists_mem_of_ne_nil _ hnil
    rw [← hfits] at hmem
    obtain ⟨haddr, heq⟩ := List.mem_filter.mp hmem
    rw [if_neg hnil, sees, hsome ⟨addr, haddr, eq_of_beq heq⟩]
    exact congrArg Seen.addresses hfits

end

end Nscd

namespace Dns

/-- The address in a record of the family. -/
def recordAddress (family : Family) (record : ResourceRecord) : Option IpAddr :=
  if record.rtype = family.qtype then Nscd.addressOf family.nscd record.rdata else none

/-- A reply to a query for the addresses of a family. -/
def sees (family : Family) (reply : Bytes) : Seen :=
  if rcode reply = some rcodeNxdomain then .noName
  else if rcode reply = some rcodeNoerror then
    match decodeAnswers reply with
    | some (_, records, _) => family.seen (records.filterMap (recordAddress family))
    | none => .trouble
  else .trouble

theorem sees_nxdomain (family : Family) (query : Query) :
    sees family query.nxdomain = .noName := by
  rw [sees, Query.nxdomain, Query.rcode_response]
  exact if_pos rfl

def familyOctets : Family → IpAddr → Option Bytes
  | .ipv4 => v4Octets
  | .ipv6 => v6Octets

theorem addressData_qtype (family : Family) (addrs : List IpAddr) :
    addressData family.qtype addrs = addrs.filterMap (familyOctets family) := by
  cases family <;> rfl

theorem addressOf_familyOctets (family : Family) (addr : IpAddr) :
    (familyOctets family addr).bind (Nscd.addressOf family.nscd) =
      Option.guard family.fits addr := by
  have hback : Nscd.addressOf (Nscd.addressFamily addr) (Nscd.addressBytes addr) = some addr :=
    (Nscd.addressOf_eq_some_iff _ _ _).mpr ⟨rfl, rfl⟩
  cases family with
  | ipv4 =>
    cases addr with
    | v4 a => exact hback
    | v6 a => rfl
  | ipv6 =>
    cases addr with
    | v4 a => rfl
    | v6 a => exact hback

theorem sees_answer {family : Family} {raw : Bytes} {query : Query}
    (hparse : Query.parse raw = .ok query) (hqtype : query.question.qtype = family.qtype)
    (addrs : List IpAddr) (hcount : addrs.length < 65536) :
    sees family (query.answer addrs) = family.seen addrs := by
  obtain ⟨labels, ancount, records, -, -, -, -, hdecode, hrecords, hdata⟩ :=
    answer_decodes hparse addrs hcount
  have haddresses : records.filterMap (recordAddress family) = addrs.filter family.fits := by
    have htype : ∀ record ∈ records,
        recordAddress family record = Nscd.addressOf family.nscd record.rdata := by
      intro record hrecord
      rw [recordAddress, (hrecords record hrecord).2.1, hqtype, if_pos rfl]
    rw [List.filterMap_congr htype, ← Function.comp_def, ← List.filterMap_map, hdata, hqtype,
      addressData_qtype, List.filterMap_filterMap, funext (addressOf_familyOctets family),
      List.filterMap_eq_filter]
  have hcode : rcode (query.answer addrs) = some rcodeNoerror := by
    rw [Query.answer, Query.rcode_response]
    rfl
  rw [sees, hcode, if_neg (by decide), if_pos rfl, hdecode]
  dsimp only
  rw [haddresses, Family.seen, Family.seen, List.filter_filter]
  simp only [Bool.and_self]

end Dns

namespace Nss

def sees : Response Host → Seen
  | .success host => .addresses host.addresses.toList
  | .notFound => .noName
  | .unavail => .trouble

/-- Of the statuses of NSS none tells that a name has no address. -/
def told (seen : Seen) : Seen := if seen = .noAddress then .noName else seen

theorem sees_report (family : Family) (name : Str) (addrs : List IpAddr) :
    sees (report name family.nss (.resolved addrs)) = told (family.seen addrs) := by
  have hfitting := family.fitting_nss addrs
  rw [Family.seen]
  by_cases hnil : addrs.filter family.fits = []
  · rw [(report_resolved_eq_notFound_iff name family.nss addrs).mpr (hfitting.trans hnil),
      if_pos hnil]
    rfl
  · rw [if_neg hnil]
    cases hreport : report name family.nss (.resolved addrs) with
    | notFound =>
      rw [report_resolved_eq_notFound_iff, hfitting] at hreport
      exact absurd hreport hnil
    | unavail => exact absurd hreport (report_resolved_ne_unavail _ _ _)
    | success host =>
      obtain ⟨-, -, haddresses, -⟩ :=
        (report_resolved_eq_success_iff name family.nss addrs host).mp hreport
      rw [sees, haddresses, hfitting]
      rfl

end Nss

variable {cel : Cel}

/-- One question of one caller, as it comes to each front-end. -/
structure Posed [NativeEndian] (front : Dns.Frontend cel) (proc : Option ProcFs) (raw : Bytes)
    (peer : SocketAddr) (transport : Transport) (server : SocketAddr) (family : Family)
    (query : Dns.Query) (request : Nscd.Request) (caller : Caller) (relays : Relays)
    (json : Nss.Json) (daemonJson : Daemon.Json) : Prop where
  parse : Dns.Query.parse raw = .ok query
  qtype : query.question.qtype = family.qtype
  identified : front.callerOf proc transport peer server = caller
  requestType : request.ty = family.requestType
  key : request.key = Utf8.encode query.question.hostname ++ [0]
  dnsJudges : front.relays.contains caller = false
  socketJudges : relays.contains caller = false
  agrees : (Nss.Found.running daemonJson front.engine relays caller).Agrees json
    query.question.hostname

namespace Posed

variable [NativeEndian] {front : Dns.Frontend cel} {proc : Option ProcFs} {raw : Bytes}
  {peer : SocketAddr} {transport : Transport} {server : SocketAddr} {family : Family}
  {query : Dns.Query} {request : Nscd.Request} {caller : Caller} {relays : Relays}
  {json : Nss.Json} {daemonJson : Daemon.Json}
  (h : Posed front proc raw peer transport server family query request caller relays json
    daemonJson)
include h

theorem value_respond (upstream : Dns.Upstream) :
    (front.respond upstream proc raw peer transport server).value =
      (Dns.carryOut upstream query transport
        ((front.engine.evaluateFor query.question.hostname caller).decision
          query.question.hostname)).value := by
  have hjudges := h.dnsJudges
  rw [← h.identified] at hjudges ⊢
  rw [Dns.Frontend.respond_of_judged _ _ _ _ _ _ _ h.parse hjudges]
  rfl

theorem value_replyFor (upstream : Nscd.Upstream) :
    (Nscd.replyFor front.engine upstream request caller).value =
      (Nscd.carryOut upstream request query.question.hostname
        ((front.engine.evaluateFor query.question.hostname caller).decision
          query.question.hostname)).value := by
  have hhost : request.ty.isHostLookup = true := by
    rw [h.requestType]
    exact family.isHostLookup_requestType
  have hne : query.question.hostname ≠ [] := by
    unfold Dns.Question.hostname
    cases hname : query.question.name with
    | nil => decide
    | cons c name => simp
  have hname : request.hostname = some query.question.hostname := by
    refine (Nscd.Request.hostname_eq_some_iff _ _).mpr ⟨hne, ?_⟩
    simp [Nscd.stripNul, h.key]
  rw [Nscd.replyFor_of_name _ _ _ _ hhost hname]
  rfl

end Posed

/-- Where the policy settles a lookup, the clients of all front-ends see the same,
whatever goes on upstream; where it does not, each front-end leaves it to the next
resolver of its own. -/
theorem clients_agree [NativeEndian] (front : Dns.Frontend cel) (proc : Option ProcFs)
    (raw : Bytes) (peer : SocketAddr) (transport : Transport) (server : SocketAddr)
    (family : Family) (query : Dns.Query) (request : Nscd.Request) (caller : Caller)
    (relays : Relays) (json : Nss.Json) (daemonJson : Daemon.Json)
    (h : Posed front proc raw peer transport server family query request caller relays json
      daemonJson) (dns : Dns.Upstream) (nscd : Nscd.Upstream) :
    ∃ resp, Nss.getHostByName json (Nss.daemonSocket daemonJson front.engine relays caller)
        query.question.hostname family.nss = some resp ∧
      match family.told ((front.engine.evaluateFor query.question.hostname caller).decision
        query.question.hostname) with
      | some seen =>
        Dns.sees family (front.respond dns proc raw peer transport server).value = seen ∧
        (∃ reply, (Nscd.replyFor front.engine nscd request caller).value = .bytes reply ∧
          Nscd.sees reply = seen) ∧
        Nss.sees resp = Nss.told seen
      | none =>
        (front.respond dns proc raw peer transport server).value =
          (Dns.upstreamReply dns raw transport).getD query.servfail ∧
        (Nscd.replyFor front.engine nscd request caller).value =
          (Nscd.forwardHost nscd request).value ∧
        resp = .unavail := by
  have hresp := Nss.getHostByName_found h.agrees family.nss
  refine ⟨_, hresp, ?_⟩
  have hdecision : (Nss.Found.running daemonJson front.engine relays caller).decision
      query.question.hostname =
        (front.engine.evaluateFor query.question.hostname caller).decision
          query.question.hostname := if_neg (by simp [h.socketJudges])
  rw [hdecision, h.value_respond, h.value_replyFor]
  cases hdecided : (front.engine.evaluateFor query.question.hostname caller).decision
      query.question.hostname with
  | deny =>
    refine ⟨Dns.sees_nxdomain family query, ⟨_, rfl, ?_⟩, rfl⟩
    rw [h.requestType, Nscd.notFound_requestType, Nscd.sees_hstNotFound, if_pos rfl]
  | answer addrs =>
    obtain ⟨-, hne, hrecords⟩ := (PolicyVerdict.decision_eq_answer_iff _ _ _).mp hdecided
    subst hrecords
    have hname : '\x00' ∉ query.question.hostname := by
      rw [(upstreamResolve_ne_nil_iff _).mp hne]
      decide
    have hcount : (upstreamResolve query.question.hostname).length < 65536 :=
      (Dns.length_upstreamResolve_le _).trans_lt (by decide)
    refine ⟨Dns.sees_answer h.parse h.qtype _ hcount, ⟨_, rfl, ?_⟩, Nss.sees_report _ _ _⟩
    rw [h.requestType]
    exact Nscd.sees_found family hname _ (Nscd.length_found_upstreamResolve _ _ hne)
  | forward =>
    refine ⟨?_, rfl, rfl⟩
    rw [Dns.carryOut, Dns.value_forward, Dns.Query.raw_of_parse h.parse]

/-- A query for the daemon's own record. -/
def ownQuery : Bytes :=
  [0, 7, 1, 0, 0, 1, 0, 0, 0, 0, 0, 0] ++ 7 :: Utf8.encode "example".toList ++
    5 :: Utf8.encode "local".toList ++ [0, 0, 1, 0, 1]

/-- The same lookup of nscd's clients. -/
def ownRequest : Nscd.Request :=
  ⟨.getHostByName, Utf8.encode "example.local".toList ++ [0], []⟩

theorem exists_ownQuery : ∃ query, Dns.Query.parse ownQuery = .ok query ∧
    query.question.qtype = Dns.typeA ∧ query.question.hostname = "example.local".toList :=
  ⟨_, rfl, by decide, by decide⟩

theorem clients_agree_own_record :
    Dns.sees .ipv4 (Dns.Frontend.testFront.respond ⟨.stall, .connectStall⟩ none ownQuery
      ⟨loopback, 5000⟩ .udp ⟨loopback, 53⟩).value = .addresses [.v4 ⟨[10, 0, 0, 1], rfl⟩] ∧
    ∃ reply, (@Nscd.replyFor Nscd.littleEndian _ PolicyEngine.testEngine .connectStall ownRequest
      .unknown).value = .bytes reply ∧
      @Nscd.sees Nscd.littleEndian reply = .addresses [.v4 ⟨[10, 0, 0, 1], rfl⟩] := by
  obtain ⟨query, hparse, hqtype, hhostname⟩ := exists_ownQuery
  have hposed : @Posed _ Nscd.littleEndian Dns.Frontend.testFront none ownQuery ⟨loopback, 5000⟩
      .udp ⟨loopback, 53⟩ .ipv4 query ownRequest .unknown ⟨∅⟩
      (Nss.jsonFor
        (Daemon.response PolicyEngine.testEngine ⟨∅⟩ .unknown ⟨query.question.hostname⟩))
      (Nss.daemonJsonFor ⟨query.question.hostname⟩) :=
    @Posed.mk _ Nscd.littleEndian _ _ _ _ _ _ _ _ _ _ _ _ _ hparse hqtype rfl rfl
      (by rw [hhostname]; rfl) rfl rfl (Nss.agree_for _ _)
  have htold : Family.told .ipv4 ((PolicyEngine.testEngine.evaluateFor "example.local".toList
      .unknown).decision "example.local".toList) =
        some (.addresses [.v4 ⟨[10, 0, 0, 1], rfl⟩]) := by decide
  obtain ⟨_, -, hseen⟩ := @clients_agree _ Nscd.littleEndian Dns.Frontend.testFront none ownQuery
    ⟨loopback, 5000⟩ .udp ⟨loopback, 53⟩ .ipv4 query ownRequest .unknown ⟨∅⟩ _ _ hposed
    ⟨.stall, .connectStall⟩ .connectStall
  rw [hhostname] at hseen
  simp only [Dns.Frontend.testFront, htold] at hseen
  exact ⟨hseen.1, hseen.2.1⟩

end Deezns
