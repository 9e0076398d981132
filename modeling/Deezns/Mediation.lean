import Deezns.DnsFrontend
import Deezns.IdentifyLaws
import Deezns.NscdFrontend

/-!
# Complete mediation

Whatever arrives and whatever the upstream does, a front-end sends a message on
only where the policy, or a relay, lets it through; then it sends that message,
byte for byte as far as the upstream takes it, and nothing else. What it refuses is
answered alike under every upstream.
-/
namespace Deezns

open Octets (Bytes NativeEndian)

/-- Nothing goes upstream but where it may, and there what the upstream takes of the
one message. -/
structure Mediated (may : Prop) (taken : Bytes) (trace : List Event) : Prop where
  permitted : sentPieces trace ≠ [] → may
  verbatim : may → (sentPieces trace).flatten = taken

theorem Mediated.of_silent {may : Prop} {taken : Bytes} {trace : List Event}
    (h : sentPieces trace = []) (hnot : ¬ may) : Mediated may taken trace :=
  ⟨fun hne => absurd h hne, fun hmay => absurd hmay hnot⟩

theorem Mediated.flatten_eq {may : Prop} [Decidable may] {taken : Bytes} {trace : List Event}
    (h : Mediated may taken trace) :
    (sentPieces trace).flatten = if may then taken else [] := by
  split
  · next hmay => exact h.verbatim hmay
  · next hmay =>
    by_contra hsent
    exact hmay (h.permitted fun hnil => hsent (by simp [hnil]))

/-- So what is sent is a beginning of what may be taken. -/
theorem Mediated.flatten_isPrefix {may : Prop} {taken message : Bytes} {trace : List Event}
    (h : Mediated may taken trace) (htaken : taken <+: message) :
    (sentPieces trace).flatten <+: message := by
  by_cases hsent : sentPieces trace = []
  · simp [hsent]
  · rw [h.verbatim (h.permitted hsent)]
    exact htaken

variable {cel : Cel}

namespace Dns.Frontend

variable (front : Frontend cel) (proc : Option ProcFs) (raw : Bytes) (peer : SocketAddr)
  (transport : Transport) (server : SocketAddr)

/-- The message is a query, and its sender a relay or its name let through. -/
def MaySend : Prop :=
  ∃ query, Query.parse raw = .ok query ∧
    (front.relays.contains (front.callerOf proc transport peer server) = true ∨
      LetsThrough query.question.hostname (front.engine.evaluateFor query.question.hostname
        (front.callerOf proc transport peer server)))

/-- The message is no query, or a judged one that is denied. -/
def Refuses : Prop :=
  ∀ query, Query.parse raw = .ok query →
    front.relays.contains (front.callerOf proc transport peer server) = false ∧
      ∃ reason, front.engine.evaluateFor query.question.hostname
        (front.callerOf proc transport peer server) = .denied reason

theorem mediated_respond (upstream : Upstream) :
    Mediated (front.MaySend proc raw peer transport server) (upstream.takes transport raw)
        (front.respond upstream proc raw peer transport server).trace ∧
      (transport = .udp →
        sentPieces (front.respond upstream proc raw peer transport server).trace = [] ∨
        sentPieces (front.respond upstream proc raw peer transport server).trace = [raw]) := by
  cases hparse : Query.parse raw with
  | error e =>
    rw [respond_of_error _ _ _ _ _ _ _ hparse]
    refine ⟨.of_silent rfl ?_, fun _ => .inl rfl⟩
    rintro ⟨query, hquery, -⟩
    cases hparse.symm.trans hquery
  | ok query =>
    have hraw := Query.raw_of_parse hparse
    have hforward := sentPieces_forward upstream query transport
    rw [hraw] at hforward
    cases hrelay : front.relays.contains (front.callerOf proc transport peer server) with
    | true =>
      rw [respond_of_relay _ _ _ _ _ _ _ hparse hrelay]
      exact ⟨⟨fun _ => ⟨query, hparse, .inl hrelay⟩, fun _ => hforward.1⟩, hforward.2⟩
    | false =>
      rw [respond_of_judged _ _ _ _ _ _ _ hparse hrelay]
      -- A query that is judged may be sent exactly where the decision is to forward.
      have hmay : front.MaySend proc raw peer transport server ↔
          (front.engine.evaluateFor query.question.hostname
            (front.callerOf proc transport peer server)).decision query.question.hostname =
            .forward := by
        rw [PolicyVerdict.decision_eq_forward_iff]
        constructor
        · rintro ⟨query', hquery', hrelay' | hthrough⟩
          · exact absurd (hrelay.symm.trans hrelay') Bool.false_ne_true
          · obtain rfl : query' = query := Except.ok.inj (hquery'.symm.trans hparse)
            exact hthrough
        · intro hthrough
          exact ⟨query, hparse, .inr hthrough⟩
      rw [hmay]
      cases hdecision : (front.engine.evaluateFor query.question.hostname
        (front.callerOf proc transport peer server)).decision query.question.hostname with
      | deny => simpa [hdecision, carryOut] using Mediated.of_silent rfl id
      | answer addrs => simpa [hdecision, carryOut] using Mediated.of_silent rfl id
      | forward =>
        simp only [Traced.trace_bind, PolicyEngine.trace_ask, PolicyEngine.value_ask, hdecision,
          carryOut, List.singleton_append]
        exact ⟨⟨fun _ => trivial, fun _ => hforward.1⟩, hforward.2⟩

theorem respond_of_refuses (h : front.Refuses proc raw peer transport server)
    (upstream : Upstream) :
    sentPieces (front.respond upstream proc raw peer transport server).trace = [] ∧
      ∀ upstream', (front.respond upstream' proc raw peer transport server).value =
        (front.respond upstream proc raw peer transport server).value := by
  cases hparse : Query.parse raw with
  | error e => simp [respond_of_error _ _ _ _ _ _ _ hparse]
  | ok query =>
    obtain ⟨hrelay, hdenied⟩ := h query hparse
    have hdecision := (PolicyVerdict.decision_eq_deny_iff query.question.hostname _).mpr hdenied
    simp [respond_of_judged _ _ _ _ _ _ _ hparse hrelay, hdecision, carryOut]

end Dns.Frontend

namespace Nscd

section
variable [NativeEndian] (engine : PolicyEngine cel) (request : Request) (caller : Caller)

/-- The key is a name that is let through. -/
def MaySend : Prop :=
  ∃ hostname, request.hostname = some hostname ∧
    LetsThrough hostname (engine.evaluateFor hostname caller)

/-- The key is no name, or one that is denied. -/
def Refuses : Prop :=
  ∀ hostname, request.hostname = some hostname →
    ∃ reason, engine.evaluateFor hostname caller = .denied reason

theorem mediated_replyFor (upstream : Upstream) (hhost : request.ty.isHostLookup = true) :
    Mediated (MaySend engine request caller) (upstream.takes request.raw)
      (replyFor engine upstream request caller).trace := by
  cases hname : request.hostname with
  | none =>
    rw [replyFor_of_no_name _ _ _ _ hhost hname]
    refine .of_silent rfl ?_
    rintro ⟨hostname, hname', -⟩
    cases hname.symm.trans hname'
  | some hostname =>
    rw [replyFor_of_name _ _ _ _ hhost hname]
    have hmay : MaySend engine request caller ↔
        (engine.evaluateFor hostname caller).decision hostname = .forward := by
      rw [PolicyVerdict.decision_eq_forward_iff]
      constructor
      · rintro ⟨hostname', hname', hthrough⟩
        obtain rfl : hostname' = hostname := Option.some.inj (hname'.symm.trans hname)
        exact hthrough
      · intro hthrough
        exact ⟨hostname, hname, hthrough⟩
    rw [hmay]
    cases hdecision : (engine.evaluateFor hostname caller).decision hostname with
    | deny => simpa [hdecision, carryOut] using Mediated.of_silent rfl id
    | answer addrs => simpa [hdecision, carryOut] using Mediated.of_silent rfl id
    | forward =>
      refine ⟨fun _ => rfl, fun _ => ?_⟩
      simpa [hdecision, carryOut, trace_forwardHost] using sentPieces_forward upstream request

theorem replyFor_of_refuses (upstream : Upstream) (hhost : request.ty.isHostLookup = true)
    (h : Refuses engine request caller) :
    sentPieces (replyFor engine upstream request caller).trace = [] ∧
      ∀ upstream', (replyFor engine upstream' request caller).value =
        (replyFor engine upstream request caller).value := by
  cases hname : request.hostname with
  | none => simp [replyFor_of_no_name _ _ _ _ hhost hname]
  | some hostname =>
    have hdecision := (PolicyVerdict.decision_eq_deny_iff hostname _).mpr (h hostname hname)
    simp [replyFor_of_name _ _ _ _ hhost hname, hdecision, carryOut]

/-- A connection that brings no request is closed, and nothing is sent. -/
theorem handle_of_no_request (upstream : Upstream) (client : Stream)
    (h : ∀ request rest, readRequest client ≠ some (.ok (request, rest))) :
    handle engine upstream client caller = pure .close := by
  unfold handle
  split
  · rfl
  · rfl
  · next request rest hread => exact absurd hread (h request rest)

end

end Nscd

/-- No front-end sends anything upstream but what it received and the policy,
or a relay, lets through. -/
theorem frontends_mediate [NativeEndian] :
    (∀ (front : Dns.Frontend cel) (upstream : Dns.Upstream) (proc : Option ProcFs) (raw : Bytes)
        (peer : SocketAddr) (transport : Transport) (server : SocketAddr),
      Mediated (front.MaySend proc raw peer transport server) (upstream.takes transport raw)
        (front.respond upstream proc raw peer transport server).trace ∧
      (transport = .udp →
        sentPieces (front.respond upstream proc raw peer transport server).trace = [] ∨
        sentPieces (front.respond upstream proc raw peer transport server).trace = [raw]) ∧
      (raw.length ≤ Dns.maxMessage → Octets.fromBeBytes (Dns.lengthPrefix raw) = raw.length) ∧
      (front.Refuses proc raw peer transport server →
        sentPieces (front.respond upstream proc raw peer transport server).trace = [] ∧
        ∀ upstream', (front.respond upstream' proc raw peer transport server).value =
          (front.respond upstream proc raw peer transport server).value)) ∧
    (∀ (engine : PolicyEngine cel) (upstream : Nscd.Upstream) (request : Nscd.Request)
        (caller : Caller), request.ty.isHostLookup = true →
      Mediated (Nscd.MaySend engine request caller) (upstream.takes request.raw)
        (Nscd.replyFor engine upstream request caller).trace ∧
      (Nscd.Refuses engine request caller →
        sentPieces (Nscd.replyFor engine upstream request caller).trace = [] ∧
        ∀ upstream', (Nscd.replyFor engine upstream' request caller).value =
          (Nscd.replyFor engine upstream request caller).value) ∧
      ∀ client rest, Nscd.readRequest client = some (.ok (request, rest)) →
        client.bytes = request.raw ++ rest.bytes) ∧
    (∀ (engine : PolicyEngine cel) (upstream : Nscd.Upstream) (client : Stream)
        (caller : Caller), (∀ request rest, Nscd.readRequest client ≠ some (.ok (request, rest))) →
      Nscd.handle engine upstream client caller = pure .close) := by
  refine ⟨?_, ?_, ?_⟩
  · intro front upstream proc raw peer transport server
    obtain ⟨hmediated, hudp⟩ := front.mediated_respond proc raw peer transport server upstream
    exact ⟨hmediated, hudp, Dns.fromBeBytes_lengthPrefix raw,
      fun h => front.respond_of_refuses proc raw peer transport server h upstream⟩
  · intro engine upstream request caller hhost
    refine ⟨Nscd.mediated_replyFor engine request caller upstream hhost,
      Nscd.replyFor_of_refuses engine request caller upstream hhost, ?_⟩
    intro client rest hread
    rw [((Nscd.readRequest_eq_ok_iff client rest request).mp hread).1]
  · intro engine upstream client caller h
    exact Nscd.handle_of_no_request engine caller upstream client h

theorem frontends_mediate_blocked :
    sentPieces (@Nscd.replyFor Nscd.littleEndian _ PolicyEngine.testEngine
        (.answered ⟨[], .eof⟩) (Nscd.getAi (Utf8.encode "blocked.test".toList ++ [0]))
        .unknown).trace = [] ∧
    (sentPieces (@Nscd.replyFor Nscd.littleEndian _ PolicyEngine.testEngine
        (.answered ⟨[], .eof⟩) (Nscd.getAi (Utf8.encode "other.test".toList ++ [0]))
        .unknown).trace).flatten =
      (Nscd.getAi (Utf8.encode "other.test".toList ++ [0])).raw ∧
    sentPieces ((⟨false, PolicyEngine.testEngine, ⟨∅⟩⟩ : Dns.Frontend Cel.direct).respond
        ⟨.sent [] none, .connectStall⟩ none [0, 7] ⟨loopback, 5000⟩ .udp ⟨loopback, 53⟩).trace =
      [] := by
  obtain ⟨hdns, hnscd, _⟩ := @frontends_mediate Cel.direct Nscd.littleEndian
  constructor
  · refine ((hnscd PolicyEngine.testEngine _ _ .unknown rfl).2.1 ?_).1
    intro hostname hname
    have hblocked : hostname = "blocked.test".toList :=
      Option.some.inj (hname.symm.trans (by decide))
    exact ⟨"matched rule: blocked".toList, by rw [hblocked]; decide⟩
  constructor
  · refine (hnscd PolicyEngine.testEngine (.answered ⟨[], .eof⟩) _ .unknown rfl).1.verbatim ?_
    exact ⟨"other.test".toList, by decide, by unfold LetsThrough; decide⟩
  · refine ((hdns _ _ none [0, 7] _ .udp _).2.2.2 ?_).1
    intro query hparse
    cases hparse

end Deezns
