import Deezns.Nss
import Deezns.Nsswitch
import Deezns.Stacking

/-!
# The module among other sources

The `hosts` line of nsswitch.conf names the module as `deezns [!UNAVAIL=return]`,
between sources that know nothing of it. What comes of a lookup is what the policy
decides: only what it has no opinion on goes on to the sources behind.
-/
namespace Deezns.Nss

open Utf8 (Str encode)
open Nsswitch (Answer Reaction Source Status asked lookup passed returns)

def Response.answer {α : Type} : Response α → Answer α
  | .notFound => .notFound
  | .unavail => .unavail
  | .success value => .success value

/-- There is no list of all hosts. -/
def getAllEntries : Response (List Host) := .notFound

/-- Nor are there names of addresses. -/
def getHostByAddr (_addr : IpAddr) : Response Host := .notFound

/-- `[!UNAVAIL=return]` -/
def unlessUnavail : List Reaction := [⟨true, .unavail, true⟩]

theorem returns_unlessUnavail (status : Status) :
    returns unlessUnavail status = (status != .unavail) := by
  cases status <;> rfl

variable {cel : Cel}

/-- The daemon, as the module finds it. -/
inductive Found (cel : Cel) where
  | absent (socket : Socket) (unconnected : socket.isConnected = false)
  | running (json : Daemon.Json) (engine : PolicyEngine cel) (relays : Relays) (caller : Caller)

namespace Found

def socket : Found cel → Socket
  | .absent socket _ => socket
  | .running json engine relays caller => daemonSocket json engine relays caller

/-- What the daemon does for the lookup of a name. -/
def trace (name : Str) : Found cel → List Event
  | .absent _ _ => []
  | .running _ engine relays caller => (Daemon.judge engine relays caller ⟨name⟩).trace

/-- What is to become of the lookup. -/
def decision (name : Str) : Found cel → Decision
  | .absent _ _ => .forward
  | .running _ engine relays caller =>
    if relays.contains caller then .forward
    else (engine.evaluateFor name caller).decision name

/-- What the module and the daemon write to each other is read as it was meant. -/
def Agrees (json : Json) (name : Str) : Found cel → Prop
  | .absent _ _ => True
  | .running daemon engine relays caller =>
    Agree json daemon ⟨name⟩ (Daemon.response engine relays caller ⟨name⟩)

/-- The module as a source. -/
def source (json : Json) (name : Str) (family : AddressFamily) (found : Found cel) :
    Source Event Host :=
  ⟨⟨(getHostByName json found.socket name family).map Response.answer, found.trace name⟩,
    unlessUnavail⟩

end Found

/-- What the module makes of a decision. -/
def decided (name : Str) (family : AddressFamily) : Decision → Response Host
  | .deny => .notFound
  | .answer addrs => report name family (.resolved addrs)
  | .forward => .unavail

theorem decided_eq_unavail_iff (name : Str) (family : AddressFamily) (decision : Decision) :
    (decided name family decision).answer.status = .unavail ↔ decision = .forward := by
  cases decision with
  | deny => simp [decided, Response.answer, Answer.status]
  | answer addrs =>
    have hne := report_resolved_ne_unavail name family addrs
    simp only [decided, reduceCtorEq, iff_false]
    intro h
    apply hne
    cases hreport : report name family (.resolved addrs) with
    | notFound => simp [hreport, Response.answer, Answer.status] at h
    | unavail => rfl
    | success host => simp [hreport, Response.answer, Answer.status] at h
  | forward => simp [decided, Response.answer, Answer.status]

theorem getHostByName_found {json : Json} {name : Str} {found : Found cel}
    (h : found.Agrees json name) (family : AddressFamily) :
    getHostByName json found.socket name family =
      some (decided name family (found.decision name)) := by
  cases found with
  | absent socket unconnected => exact getHostByName_of_unreachable json unconnected name family
  | running daemon engine relays caller =>
    rw [Found.socket, getHostByName, queryDaemon_daemonSocket h, Option.map_some]
    simp only [Found.decision]
    cases hrelay : relays.contains caller with
    | true => simp [Daemon.response, hrelay, report, decided]
    | false =>
      rw [report_response engine hrelay]
      cases (engine.evaluateFor name caller).decision name <;> rfl

section
variable {json : Json} {name : Str} {found : Found cel} (h : found.Agrees json name)
  (family : AddressFamily)
include h

theorem lookup_source : (found.source json name family).lookup =
    ⟨some (decided name family (found.decision name)).answer, found.trace name⟩ := by
  rw [Found.source, getHostByName_found h, Option.map_some]

theorem passes_source : (found.source json name family).passes =
    decide (found.decision name = .forward) := by
  rw [Source.passes, lookup_source h, Option.any_some, Found.source, returns_unlessUnavail,
    Bool.eq_iff_iff]
  simp [decided_eq_unavail_iff]

/-- Behind the module it goes on as the decision says. -/
theorem lookup_cons_source (after : List (Source Event Host)) :
    lookup (found.source json name family :: after) =
      if found.decision name = .forward then
        ⟨(lookup after).value, found.trace name ++ (lookup after).trace⟩
      else ⟨some (decided name family (found.decision name)).answer, found.trace name⟩ := by
  by_cases hforward : found.decision name = .forward
  · have hlast : (decided name family (found.decision name)).answer = .unavail := by
      rw [hforward]
      rfl
    have hcontinues : returns (found.source json name family).reactions
        (decided name family (found.decision name)).answer.status = false := by
      rw [hlast]
      rfl
    rw [if_pos hforward, lookup,
      Nsswitch.lookupFrom_cons_of_continues (by rw [lookup_source h]) hcontinues, lookup_source h,
      hlast]
    rfl
  · have hpasses : (found.source json name family).passes = false := by
      rw [passes_source h]
      exact decide_eq_false hforward
    rw [if_neg hforward, lookup, Nsswitch.lookupFrom_cons_of_not_passes hpasses, lookup_source h]

end

/-- The module as a source of the names of an address, which the daemon is not
asked for. -/
def addrSource (addr : IpAddr) : Source Event Host :=
  ⟨pure (some (getHostByAddr addr).answer), unlessUnavail⟩

theorem passes_addrSource (addr : IpAddr) : (addrSource addr).passes = false := rfl

/-- Where the sources before the module do not settle a lookup, what the policy
decides does, and with no opinion, or no daemon, it goes on as if the module were
not there. A lookup of an address never gets behind the module. -/
theorem hosts_chain (json : Json) (name : Str) (family : AddressFamily) (found : Found cel)
    (hagrees : found.Agrees json name) (before after : List (Source Event Host)) :
    lookup (before ++ found.source json name family :: after) =
      (if passed before = false then lookup before
      else if found.decision name = .forward then
        ⟨(lookup after).value, asked before ++ found.trace name ++ (lookup after).trace⟩
      else
        ⟨some (decided name family (found.decision name)).answer,
          asked before ++ found.trace name⟩) ∧
    (found.decision name = .forward → after ≠ [] →
      (lookup (before ++ found.source json name family :: after)).value =
        (lookup (before ++ after)).value) ∧
    ∀ addr, lookup (before ++ addrSource addr :: after) =
      lookup (before ++ [addrSource addr]) := by
  have hcons : found.source json name family :: after ≠ [] := List.cons_ne_nil _ _
  cases hpassed : passed before with
  | false =>
    refine ⟨?_, fun _ _ => ?_, fun addr => ?_⟩
    · rw [if_pos rfl, Nsswitch.lookup_append_of_not_passed hpassed]
    · rw [Nsswitch.lookup_append_of_not_passed hpassed,
        Nsswitch.lookup_append_of_not_passed hpassed]
    · rw [Nsswitch.lookup_append_of_not_passed hpassed,
        Nsswitch.lookup_append_of_not_passed hpassed]
  | true =>
    refine ⟨?_, fun hforward hne => ?_, fun addr => ?_⟩
    · rw [if_neg (by decide), Nsswitch.lookup_append_of_passed hpassed hcons,
        lookup_cons_source hagrees]
      by_cases hforward : found.decision name = .forward
      · simp only [if_pos hforward, List.append_assoc]
      · simp only [if_neg hforward]
    · rw [Nsswitch.lookup_append_of_passed hpassed hcons,
        Nsswitch.lookup_append_of_passed hpassed hne, lookup_cons_source hagrees, if_pos hforward]
    · rw [Nsswitch.lookup_append_of_passed hpassed (List.cons_ne_nil _ _),
        Nsswitch.lookup_append_of_passed hpassed (List.cons_ne_nil _ _), lookup, lookup,
        Nsswitch.lookupFrom_cons_of_not_passes (passes_addrSource addr),
        Nsswitch.lookupFrom_cons_of_not_passes (passes_addrSource addr)]

/-- A source that knows no names, and goes on. -/
def knowsNothing : Source Event Host := ⟨pure (some .notFound), []⟩

/-- A name of the daemon's own, behind a source that does not know it. -/
theorem hosts_chain_own_record :
    lookup ([knowsNothing] ++ Found.source Json.plain "example.local".toList .unspecified
        (.running Daemon.Json.plain PolicyEngine.testEngine ⟨∅⟩ .unknown) :: [knowsNothing]) =
      ⟨some (.success ⟨"example.local".toList, .v4 [⟨[10, 0, 0, 1], rfl⟩], []⟩),
        [.asked "example.local".toList .unknown]⟩ := by
  have hagree : Agree Json.plain Daemon.Json.plain ⟨"example.local".toList⟩
      (Daemon.response PolicyEngine.testEngine ⟨∅⟩ .unknown ⟨"example.local".toList⟩) :=
    ⟨⟨_, rfl, by decide, by decide, by decide⟩, ⟨_, rfl, by decide, by decide⟩⟩
  exact (hosts_chain Json.plain _ .unspecified
    (.running Daemon.Json.plain PolicyEngine.testEngine ⟨∅⟩ .unknown) hagree _ _).1.trans rfl

/-- `serde_json` in the module, where the daemon gives one response. -/
def jsonFor (resp : Daemon.ResolveResponse) : Json where
  toVec := fun _ => .ok (encode ['q'])
  fromStr := fun _ => some resp

/-- `serde_json` in the daemon, where it gets one request. -/
def daemonJsonFor (req : Daemon.ResolveRequest) : Daemon.Json where
  fromStr := fun _ => some req
  toVec := fun _ => .ok (encode ['r'])

theorem agree_for (req : Daemon.ResolveRequest) (resp : Daemon.ResolveResponse) :
    Agree (jsonFor resp) (daemonJsonFor req) req resp :=
  ⟨⟨['q'], rfl, by decide, by decide, rfl⟩, ⟨['r'], rfl, by decide, rfl⟩⟩

end Deezns.Nss
