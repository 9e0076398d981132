import Deezns.Decisions
import Deezns.Sessions

/-!
# The NSS module

The module asks the daemon one thing per connection and turns its answer into a
status. To glibc `notFound` is final, and with `unavail` it goes on to the next
source.
-/
namespace Deezns.Nss

open Octets (Bytes)
open Utf8 (Str encode)
open Daemon (ResolveRequest ResolveResponse)

/-- `serde_json` in the module. -/
structure Json where
  toVec : ResolveRequest → Except IoError Bytes
  fromStr : Str → Option ResolveResponse

/-- The daemon's socket: what comes back for the bytes written on it, unless
nothing can be. -/
inductive Socket where
  | connectError (e : IoError)
  | writeError (e : IoError)
  | connected (answer : Bytes → Stream)

/-- The response to a lookup, or none for any failure. It never completes where
the daemon stalls. -/
def queryDaemon (json : Json) (socket : Socket) (hostname : Str) :
    Option (Option ResolveResponse) :=
  match socket with
  | .connectError _ => some none
  | .writeError _ => some none
  | .connected answer =>
    match json.toVec ⟨hostname⟩ with
    | .error _ => some none
    | .ok buf =>
      match (answer (buf ++ [0x0A])).readLine with
      | none => none
      | some (.error _) => some none
      | some (.ok line) => some (json.fromStr line)

inductive AddressFamily where
  | ipv4 | ipv6 | unspecified
  deriving DecidableEq, Repr

inductive Addresses where
  | v4 (addrs : List Ipv4Addr)
  | v6 (addrs : List Ipv6Addr)
  deriving DecidableEq, Repr

def isIpv4 : IpAddr → Bool
  | .v4 _ => true
  | .v6 _ => false

def ipv4 : IpAddr → Option Ipv4Addr
  | .v4 a => some a
  | .v6 _ => none

def ipv6 : IpAddr → Option Ipv6Addr
  | .v4 _ => none
  | .v6 a => some a

@[simp] theorem isIpv4_v4 (a : Ipv4Addr) : isIpv4 (.v4 a) = true := rfl
@[simp] theorem isIpv4_v6 (a : Ipv6Addr) : isIpv4 (.v6 a) = false := rfl
@[simp] theorem ipv4_v4 (a : Ipv4Addr) : ipv4 (.v4 a) = some a := rfl
@[simp] theorem ipv4_v6 (a : Ipv6Addr) : ipv4 (.v6 a) = none := rfl
@[simp] theorem ipv6_v4 (a : Ipv4Addr) : ipv6 (.v4 a) = none := rfl
@[simp] theorem ipv6_v6 (a : Ipv6Addr) : ipv6 (.v6 a) = some a := rfl

/-- The addresses of a family, if there are any. -/
def filterAddrs (addrs : List IpAddr) (family : AddressFamily) : Option Addresses :=
  match family with
  | .ipv4 =>
    let v4 := addrs.filterMap ipv4
    if v4.isEmpty then none else some (.v4 v4)
  | .ipv6 =>
    let v6 := addrs.filterMap ipv6
    if v6.isEmpty then none else some (.v6 v6)
  | .unspecified =>
    -- whatever there is, but IPv4 first
    let (v4, v6) := addrs.partition isIpv4
    if !v4.isEmpty then some (.v4 (v4.filterMap ipv4))
    else if !v6.isEmpty then some (.v6 (v6.filterMap ipv6))
    else none

structure Host where
  name : Str
  addresses : Addresses
  aliases : List Str
  deriving DecidableEq, Repr

inductive Response (α : Type) where
  | notFound
  | unavail
  | success (value : α)
  deriving DecidableEq, Repr

/-- What a response means to glibc. -/
def report (name : Str) (family : AddressFamily) : ResolveResponse → Response Host
  | .denied _ => .notFound
  | .passThrough => .unavail
  | .resolved addresses =>
    match filterAddrs addresses family with
    | some addrs => .success ⟨name, addrs, []⟩
    | none => .notFound

def getHostByName (json : Json) (socket : Socket) (name : Str) (family : AddressFamily) :
    Option (Response Host) :=
  (queryDaemon json socket name).map (fun resp =>
    match resp with
    | some resp => report name family resp
    | none => .unavail)

/-- The addresses as they are, whatever their family. -/
def Addresses.toList : Addresses → List IpAddr
  | .v4 addrs => addrs.map .v4
  | .v6 addrs => addrs.map .v6

/-- The addresses that fit a family: all of one family. -/
def fitting (addrs : List IpAddr) : AddressFamily → List IpAddr
  | .ipv4 => addrs.filter isIpv4
  | .ipv6 => addrs.filter (fun addr => !isIpv4 addr)
  | .unspecified =>
    if addrs.any isIpv4 then addrs.filter isIpv4 else addrs.filter (fun addr => !isIpv4 addr)

theorem map_filterMap_ipv4 (addrs : List IpAddr) :
    (addrs.filterMap ipv4).map .v4 = addrs.filter isIpv4 := by
  rw [List.map_filterMap, ← List.filterMap_eq_filter]
  congr 1
  funext addr
  cases addr <;> rfl

theorem map_filterMap_ipv6 (addrs : List IpAddr) :
    (addrs.filterMap ipv6).map .v6 = addrs.filter (fun addr => !isIpv4 addr) := by
  rw [List.map_filterMap, ← List.filterMap_eq_filter]
  congr 1
  funext addr
  cases addr <;> rfl

/-- A list of addresses that is not empty has but one family. -/
theorem Addresses.toList_inj {a b : Addresses} (hne : a.toList ≠ []) (h : a.toList = b.toList) :
    a = b := by
  cases a with
  | v4 as =>
    cases b with
    | v4 bs => rw [List.map_injective_iff.mpr (fun _ _ => IpAddr.v4.inj) h]
    | v6 bs => cases as <;> cases bs <;> simp [toList] at h hne
  | v6 as =>
    cases b with
    | v4 bs => cases as <;> cases bs <;> simp [toList] at h hne
    | v6 bs => rw [List.map_injective_iff.mpr (fun _ _ => IpAddr.v6.inj) h]

theorem filterMap_ipv4_filter (addrs : List IpAddr) :
    (addrs.filter isIpv4).filterMap ipv4 = addrs.filterMap ipv4 := by
  rw [List.filterMap_filter]
  congr 1
  funext addr
  cases addr <;> rfl

theorem filterMap_ipv6_filter (addrs : List IpAddr) :
    (addrs.filter (fun addr => !isIpv4 addr)).filterMap ipv6 = addrs.filterMap ipv6 := by
  rw [List.filterMap_filter]
  congr 1
  funext addr
  cases addr <;> rfl

theorem filterMap_ipv4_eq_nil_iff (addrs : List IpAddr) :
    addrs.filterMap ipv4 = [] ↔ addrs.filter isIpv4 = [] := by
  rw [← map_filterMap_ipv4, List.map_eq_nil_iff]

theorem filterMap_ipv6_eq_nil_iff (addrs : List IpAddr) :
    addrs.filterMap ipv6 = [] ↔ addrs.filter (fun addr => !isIpv4 addr) = [] := by
  rw [← map_filterMap_ipv6, List.map_eq_nil_iff]

/-- IPv6 addresses count for both families if there are no others. -/
theorem unspecified_cases (addrs : List IpAddr) :
    (addrs.filter isIpv4 ≠ [] ∧ fitting addrs .unspecified = fitting addrs .ipv4 ∧
        filterAddrs addrs .unspecified = filterAddrs addrs .ipv4) ∨
      (addrs.filter isIpv4 = [] ∧ fitting addrs .unspecified = fitting addrs .ipv6 ∧
        filterAddrs addrs .unspecified = filterAddrs addrs .ipv6) := by
  have hv4 := filterMap_ipv4_eq_nil_iff addrs
  have hv6 := filterMap_ipv6_eq_nil_iff addrs
  by_cases h : addrs.filter isIpv4 = []
  · have hany : addrs.any isIpv4 = false := by simpa [List.filter_eq_nil_iff] using h
    refine .inr ⟨h, by simp [fitting, hany], ?_⟩
    by_cases h' : addrs.filter (fun addr => !isIpv4 addr) = []
    · simp [filterAddrs, Function.comp_def, h, h', hv6.mpr h']
    · simp [filterAddrs, Function.comp_def, h, h', mt hv6.mp h', filterMap_ipv6_filter]
  · have hany : addrs.any isIpv4 = true := by simpa [List.filter_eq_nil_iff] using h
    refine .inl ⟨h, by simp [fitting, hany], ?_⟩
    simp [filterAddrs, h, mt hv4.mp h, filterMap_ipv4_filter]

/-- There are addresses that fit, and they are returned, or none. -/
def Filtered (fit : List IpAddr) (result : Option Addresses) : Prop :=
  (fit = [] ∧ result = none) ∨ (fit ≠ [] ∧ ∃ a, result = some a ∧ a.toList = fit)

theorem filtered_of_toList {α : Type} {addrs : List α} {mk : List α → Addresses}
    {fit : List IpAddr} (hnil : addrs = [] ↔ fit = []) (hlist : (mk addrs).toList = fit) :
    Filtered fit (if addrs.isEmpty then none else some (mk addrs)) := by
  by_cases h : addrs = []
  · exact .inl ⟨hnil.mp h, if_pos (List.isEmpty_iff.mpr h)⟩
  · exact .inr ⟨mt hnil.mpr h, mk addrs, if_neg (mt List.isEmpty_iff.mp h), hlist⟩

theorem filterAddrs_filtered (addrs : List IpAddr) (family : AddressFamily) :
    Filtered (fitting addrs family) (filterAddrs addrs family) := by
  have hv4 : Filtered (fitting addrs .ipv4) (filterAddrs addrs .ipv4) :=
    filtered_of_toList (filterMap_ipv4_eq_nil_iff addrs) (map_filterMap_ipv4 addrs)
  have hv6 : Filtered (fitting addrs .ipv6) (filterAddrs addrs .ipv6) :=
    filtered_of_toList (filterMap_ipv6_eq_nil_iff addrs) (map_filterMap_ipv6 addrs)
  cases family with
  | ipv4 => exact hv4
  | ipv6 => exact hv6
  | unspecified =>
    rcases unspecified_cases addrs with ⟨-, hfitting, hfilter⟩ | ⟨-, hfitting, hfilter⟩
    · rw [hfitting, hfilter]
      exact hv4
    · rw [hfitting, hfilter]
      exact hv6

theorem filterAddrs_eq_none_iff (addrs : List IpAddr) (family : AddressFamily) :
    filterAddrs addrs family = none ↔ fitting addrs family = [] := by
  rcases filterAddrs_filtered addrs family with ⟨hnil, hnone⟩ | ⟨hne, a, ha, -⟩
  · simp [hnil, hnone]
  · simp [hne, ha]

theorem filterAddrs_eq_some_iff (addrs : List IpAddr) (family : AddressFamily) (a : Addresses) :
    filterAddrs addrs family = some a ↔
      fitting addrs family ≠ [] ∧ a.toList = fitting addrs family := by
  rcases filterAddrs_filtered addrs family with ⟨hnil, hnone⟩ | ⟨hne, b, hb, hlist⟩
  · simp [hnil, hnone]
  · rw [hb, Option.some.injEq]
    constructor
    · rintro rfl
      exact ⟨hne, hlist⟩
    · rintro ⟨-, ha⟩
      exact Addresses.toList_inj (by rwa [hlist]) (hlist.trans ha.symm)

variable {cel : Cel}

/-- The daemon at the other end, which waits for more after the first request. -/
def daemonSocket (json : Daemon.Json) (engine : PolicyEngine cel) (relays : Relays)
    (caller : Caller) : Socket :=
  .connected (fun sent =>
    ⟨(Daemon.handleConnection json engine relays caller (lines sent)).1.flatten, .stall⟩)

/-- Both libraries agree on a request and its response, each on one line. -/
structure Agree (json : Json) (daemon : Daemon.Json) (req : ResolveRequest)
    (resp : ResolveResponse) : Prop where
  request : ∃ line, json.toVec req = .ok (encode line) ∧ '\n' ∉ line ∧
    line.getLast? ≠ some '\r' ∧ daemon.fromStr line = some req
  response : ∃ line, daemon.toVec resp = .ok (encode line) ∧ '\n' ∉ line ∧
    json.fromStr (line ++ ['\n']) = some resp

/-- What the module asks is what the daemon is asked, and its response is read
as it was meant. -/
theorem queryDaemon_daemonSocket {json : Json} {daemon : Daemon.Json} {engine : PolicyEngine cel}
    {relays : Relays} {caller : Caller} {hostname : Str}
    (h : Agree json daemon ⟨hostname⟩ (Daemon.response engine relays caller ⟨hostname⟩)) :
    queryDaemon json (daemonSocket daemon engine relays caller) hostname =
      some (some (Daemon.response engine relays caller ⟨hostname⟩)) := by
  obtain ⟨line, hline, hnewline, hcr, hreq⟩ := h.request
  obtain ⟨reply, hreply, hnewline', hresp⟩ := h.response
  have hwritten : Daemon.handleConnection daemon engine relays caller
      (lines (encode line ++ [0x0A])) = ([encode reply ++ [0x0A]], .ok ()) := by
    rw [lines_concat hnewline hcr, Daemon.handleConnection_of_request _ _ _ _ hreq hreply]
    rfl
  have hread := Stream.readLine_eq hnewline' [] .stall
  simp only [queryDaemon, daemonSocket, hline, hwritten, List.flatten_singleton, hread, hresp]

def Socket.isConnected : Socket → Bool
  | .connectError _ => false
  | .writeError _ => false
  | .connected _ => true

theorem getHostByName_of_unreachable (json : Json) {socket : Socket}
    (h : socket.isConnected = false) (name : Str) (family : AddressFamily) :
    getHostByName json socket name family = some .unavail := by
  cases socket with
  | connectError e => rfl
  | writeError e => rfl
  | connected answer => cases h

/-- Names without records are for the next source, like those the policy has no
opinion about. -/
theorem report_response (engine : PolicyEngine cel) {relays : Relays} {caller : Caller}
    (h : relays.contains caller = false) (name : Str) (family : AddressFamily) :
    report name family (Daemon.response engine relays caller ⟨name⟩) =
      match (engine.evaluateFor name caller).decision name with
      | .deny => .notFound
      | .forward => .unavail
      | .answer addrs => report name family (.resolved addrs) := by
  rw [Daemon.response, if_neg (by simp [h])]
  cases engine.evaluateFor name caller with
  | denied reason => rfl
  | passThrough => rfl
  | allowed =>
    by_cases hrecords : (upstreamResolve name).isEmpty = true
    · simp [PolicyVerdict.decision, hrecords, report]
    · simp [PolicyVerdict.decision, hrecords]

theorem report_resolved_eq_success_iff (name : Str) (family : AddressFamily)
    (addrs : List IpAddr) (host : Host) :
    report name family (.resolved addrs) = .success host ↔
      fitting addrs family ≠ [] ∧ host.name = name ∧
        host.addresses.toList = fitting addrs family ∧ host.aliases = [] := by
  obtain ⟨name', addresses, aliases⟩ := host
  rcases filterAddrs_filtered addrs family with ⟨hnil, hnone⟩ | ⟨hne, a, ha, hlist⟩
  · simp [report, hnone, hnil]
  · have haddresses : a = addresses ↔ addresses.toList = fitting addrs family := by
      rw [← Option.some_inj, ← ha, filterAddrs_eq_some_iff]
      simp [hne]
    simp only [report, ha, Response.success.injEq, Host.mk.injEq, haddresses, ne_eq, hne,
      not_false_eq_true, true_and]
    simp only [eq_comm]

theorem report_resolved_eq_notFound_iff (name : Str) (family : AddressFamily)
    (addrs : List IpAddr) :
    report name family (.resolved addrs) = .notFound ↔ fitting addrs family = [] := by
  rw [← filterAddrs_eq_none_iff, report]
  cases filterAddrs addrs family <;> simp

theorem report_resolved_ne_unavail (name : Str) (family : AddressFamily)
    (addrs : List IpAddr) : report name family (.resolved addrs) ≠ .unavail := by
  rw [report]
  cases filterAddrs addrs family <;> simp

/-- What the module reports is what the policy decided. -/
theorem getHostByName_reports (json : Json) (daemon : Daemon.Json) (engine : PolicyEngine cel)
    (relays : Relays) (caller : Caller) (socket : Socket) (name : Str) (family : AddressFamily)
    (hsocket : socket.isConnected = true → socket = daemonSocket daemon engine relays caller)
    (hjson : Agree json daemon ⟨name⟩ (Daemon.response engine relays caller ⟨name⟩)) :
    (relays.contains caller = false →
      (getHostByName json socket name family = some .notFound ↔ socket.isConnected = true ∧
        ((∃ reason, engine.evaluateFor name caller = .denied reason) ∨
          engine.evaluateFor name caller = .allowed ∧ upstreamResolve name ≠ [] ∧
            fitting (upstreamResolve name) family = [])) ∧
      (∀ host, getHostByName json socket name family = some (.success host) ↔
        socket.isConnected = true ∧ engine.evaluateFor name caller = .allowed ∧
          fitting (upstreamResolve name) family ≠ [] ∧ host.name = name ∧
          host.addresses.toList = fitting (upstreamResolve name) family ∧ host.aliases = []) ∧
      (getHostByName json socket name family = some .unavail ↔ socket.isConnected = false ∨
        engine.evaluateFor name caller = .passThrough ∨
          engine.evaluateFor name caller = .allowed ∧ upstreamResolve name = [])) ∧
    (relays.contains caller = true → getHostByName json socket name family = some .unavail) := by
  cases hconnected : socket.isConnected with
  | false => simp [getHostByName_of_unreachable json hconnected]
  | true =>
    have hreport : getHostByName json socket name family =
        some (report name family (Daemon.response engine relays caller ⟨name⟩)) := by
      rw [hsocket hconnected, getHostByName, queryDaemon_daemonSocket hjson]
      rfl
    rw [hreport]
    constructor
    · intro hrelay
      rw [report_response engine hrelay]
      cases hverdict : engine.evaluateFor name caller with
      | denied reason => simp [PolicyVerdict.decision]
      | passThrough => simp [PolicyVerdict.decision]
      | allowed =>
        by_cases hrecords : upstreamResolve name = []
        · have hnone : fitting [] family = [] := by cases family <;> rfl
          simp [PolicyVerdict.decision, hrecords, hnone]
        · simp only [PolicyVerdict.decision, List.isEmpty_iff, if_neg hrecords,
            Option.some_inj, report_resolved_eq_notFound_iff, report_resolved_eq_success_iff]
          simp [hrecords, report_resolved_ne_unavail]
    · intro hrelay
      simp [Daemon.response, hrelay, report]

/-- `serde_json`, for names without anything to escape and the daemon's own
addresses. -/
def Json.plain : Json where
  toVec := fun req =>
    .ok (encode ("\x7b\"hostname\":\"".toList ++ req.hostname ++ "\"\x7d".toList))
  fromStr := fun line =>
    if line = "\x7b\"verdict\":\"PassThrough\"\x7d\n".toList then some .passThrough
    else if line =
      "\x7b\"verdict\":\"Resolved\",\"addresses\":[\"10.0.0.1\"]\x7d\n".toList then
      some (.resolved (upstreamResolve "example.local".toList))
    else none

theorem getHostByName_reports_example :
    getHostByName Json.plain
        (daemonSocket Daemon.Json.plain PolicyEngine.testEngine ⟨∅⟩ .unknown)
        "example.local".toList .unspecified =
      some (.success ⟨"example.local".toList, .v4 [⟨[10, 0, 0, 1], rfl⟩], []⟩) := by
  have hagree : Agree Json.plain Daemon.Json.plain ⟨"example.local".toList⟩
      (Daemon.response PolicyEngine.testEngine ⟨∅⟩ .unknown ⟨"example.local".toList⟩) :=
    ⟨⟨_, rfl, by decide, by decide, by decide⟩, ⟨_, rfl, by decide, by decide⟩⟩
  have hreports := getHostByName_reports _ _ _ _ _ _ _ .unspecified (fun _ => rfl) hagree
  exact ((hreports.1 rfl).2.1 _).mpr ⟨rfl, by decide, by decide, rfl, by decide, rfl⟩

end Deezns.Nss
