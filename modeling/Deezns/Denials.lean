import Deezns.Daemon
import Deezns.DnsReplies

/-!
# Denials

A front-end denies a lookup by policy where it gives its negative reply whatever
the next resolver does. Each does so exactly if the verdict on the name is to
deny it: no other reply of its own looks like that one.
-/
namespace Deezns

open Octets (Bytes NativeEndian readNe writeNe)
open Utf8 (Str)

variable {cel : Cel}

namespace Dns.Frontend

variable (front : Frontend cel) (proc : Option ProcFs) (raw : Bytes) (peer : SocketAddr)
  (transport : Transport) (server : SocketAddr)

/-- NXDOMAIN by policy. -/
def Denies : Prop :=
  ∃ query, Query.parse raw = .ok query ∧
    ∀ upstream, (front.respond upstream proc raw peer transport server).value = query.nxdomain

theorem denies_iff {query : Query} (h : Query.parse raw = .ok query)
    (hrelay : front.relays.contains (front.callerOf proc transport peer server) = false) :
    front.Denies proc raw peer transport server ↔
      ∃ reason, front.engine.evaluateFor query.question.hostname
        (front.callerOf proc transport peer server) = .denied reason := by
  rw [← PolicyVerdict.decision_eq_deny_iff query.question.hostname]
  have hvalue : ∀ upstream, (front.respond upstream proc raw peer transport server).value =
      (carryOut upstream query transport
        ((front.engine.evaluateFor query.question.hostname
          (front.callerOf proc transport peer server)).decision query.question.hostname)).value :=
    fun upstream => by rw [respond_of_judged _ _ _ _ _ _ _ h hrelay]; rfl
  constructor
  · rintro ⟨query', h', hdenies⟩
    cases h.symm.trans h'
    -- an upstream server that never answers tells a denial from all else
    have hcode := congrArg rcode ((hvalue ⟨.stall, .connectStall⟩).symm.trans (hdenies _))
    rw [Query.nxdomain, Query.rcode_response] at hcode
    cases hdecision : (front.engine.evaluateFor query.question.hostname
        (front.callerOf proc transport peer server)).decision query.question.hostname with
    | deny => rfl
    | answer addrs =>
      rw [hdecision, carryOut, Traced.value_pure, Query.answer, Query.rcode_response] at hcode
      exact absurd hcode (by decide)
    | forward =>
      rw [hdecision, carryOut, value_forward_silent, Query.servfail, Query.rcode_response] at hcode
      exact absurd hcode (by decide)
  · intro hdecision
    exact ⟨query, h, fun upstream => by rw [hvalue, hdecision]; rfl⟩

/-- A relay is denied nothing. -/
theorem not_denies_of_relay
    (hrelay : front.relays.contains (front.callerOf proc transport peer server) = true) :
    ¬ front.Denies proc raw peer transport server := by
  rintro ⟨query, hparse, hdenies⟩
  have hcode := congrArg rcode (hdenies ⟨.stall, .connectStall⟩)
  rw [respond_of_relay _ _ _ _ _ _ _ hparse hrelay, value_forward_silent, Query.servfail,
    Query.nxdomain, Query.rcode_response, Query.rcode_response] at hcode
  exact absurd hcode (by decide)

end Dns.Frontend

namespace Nscd

section
variable [NativeEndian]

/-- The error of a host reply. -/
def errorOf (ty : RequestType) (reply : Bytes) : Int32 :=
  match ty with
  | .getAi => readNe reply 20
  | _ => readNe reply 28

theorem errorOf_aiReply (found error : Int32) (canon : Str) (addrs : List IpAddr) :
    errorOf .getAi (aiReply found error canon addrs) = error :=
  Octets.readNe_writeNe _ _ 5 (by simp)

theorem errorOf_hstReply {ty : RequestType} (hty : ty ≠ .getAi) (found error : Int32) (name : Str)
    (family : Int32) (addrs : List IpAddr) :
    errorOf ty (hstReply found error name family addrs) = error := by
  have herror : errorOf ty (hstReply found error name family addrs) =
      readNe (hstReply found error name family addrs) 28 := by
    cases ty <;> first | rfl | exact absurd rfl hty
  rw [herror]
  exact Octets.readNe_writeNe _ _ 7 (by simp)

theorem errorOf_notFound (ty : RequestType) (error : Int32) :
    errorOf ty (notFound ty error) = error := by
  by_cases hty : ty = .getAi
  · subst hty
    exact errorOf_aiReply 0 error [] []
  · rw [notFound_of_ne_getAi hty]
    exact errorOf_hstReply hty 0 error [] (-1) []

theorem errorOf_hstFound {ty : RequestType} (hty : ty ≠ .getAi) (name : Str) (family : Int32)
    (addrs : List IpAddr) :
    errorOf ty ((hstFound name family addrs).getD (hstNotFound noData)) = 0 ∨
      errorOf ty ((hstFound name family addrs).getD (hstNotFound noData)) = noData := by
  simp only [hstFound]
  split
  · exact .inr (errorOf_hstReply hty 0 noData [] (-1) [])
  · exact .inl (errorOf_hstReply hty 1 0 name family _)

theorem errorOf_found (ty : RequestType) (name : Str) (addrs : List IpAddr) :
    errorOf ty (found ty name addrs) = 0 ∨ errorOf ty (found ty name addrs) = noData := by
  by_cases hty : ty = .getAi
  · subst hty
    exact .inl (errorOf_aiReply 1 0 name addrs)
  · obtain ⟨family, hfound⟩ := found_of_ne_getAi hty name addrs
    rw [hfound]
    exact errorOf_hstFound hty name family addrs

variable (engine : PolicyEngine cel) (request : Request) (caller : Caller)

/-- HOST_NOT_FOUND by policy. -/
def Denies : Prop :=
  ∀ upstream, (replyFor engine upstream request caller).value =
    .bytes (notFound request.ty hostNotFound)

theorem denies_iff (hhost : request.ty.isHostLookup = true) {hostname : Str}
    (hname : request.hostname = some hostname) :
    Denies engine request caller ↔
      ∃ reason, engine.evaluateFor hostname caller = .denied reason := by
  rw [← PolicyVerdict.decision_eq_deny_iff hostname]
  have hvalue : ∀ upstream, (replyFor engine upstream request caller).value =
      (carryOut upstream request hostname
        ((engine.evaluateFor hostname caller).decision hostname)).value :=
    fun upstream => by rw [replyFor_of_name _ _ _ _ hhost hname]; rfl
  constructor
  · intro hdenies
    -- an nscd that is not there tells a denial from all else
    have hreply := (hvalue (.connectStall)).symm.trans (hdenies .connectStall)
    cases hdecision : (engine.evaluateFor hostname caller).decision hostname with
    | deny => rfl
    | answer addrs =>
      rw [hdecision, carryOut, Traced.value_pure, Reply.bytes.injEq] at hreply
      have herror := errorOf_found request.ty hostname addrs
      rw [hreply, errorOf_notFound] at herror
      exact absurd herror (by decide)
    | forward =>
      rw [hdecision, carryOut, forwardHost] at hreply
      have herror := congrArg (errorOf request.ty) (Reply.bytes.inj hreply)
      rw [errorOf_notFound, errorOf_notFound] at herror
      exact absurd herror (by decide)
  · intro hdecision upstream
    rw [hvalue, hdecision]
    rfl

end

end Nscd

namespace Daemon

variable (engine : PolicyEngine cel) (relays : Relays) (caller : Caller) (req : ResolveRequest)

def Denies : Prop := ∃ reason, response engine relays caller req = .denied reason

theorem denies_iff (hrelay : relays.contains caller = false) :
    Denies engine relays caller req ↔
      ∃ reason, engine.evaluateFor req.hostname caller = .denied reason := by
  simp only [Denies, response, hrelay, Bool.false_eq_true, if_false]
  cases engine.evaluateFor req.hostname caller with
  | denied reason => simp
  | passThrough => simp
  | allowed =>
    simp only
    split <;> simp

theorem not_denies_of_relay (hrelay : relays.contains caller = true) :
    ¬ Denies engine relays caller req := by
  simp [Denies, response, hrelay]

end Daemon

end Deezns
