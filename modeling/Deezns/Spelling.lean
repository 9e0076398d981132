import Deezns.Daemon
import Deezns.NscdFrontend

/-!
# How a name is spelled

The policy sees every spelling of a name alike. The daemon's own records are
looked up under the spelling of the request, and so are empty names told from
the root; everywhere else the spelling makes no difference.
-/
namespace Deezns

open Octets (Bytes NativeEndian)
open Utf8 (Str)

variable {cel : Cel}

/-- The spelling under which the daemon has records, and only it. -/
def SameRecords (hostname hostname' : Str) : Prop :=
  hostname = "example.local".toList ↔ hostname' = "example.local".toList

theorem upstreamResolve_eq_iff (hostname hostname' : Str) :
    upstreamResolve hostname = upstreamResolve hostname' ↔ SameRecords hostname hostname' := by
  unfold upstreamResolve SameRecords
  split <;> split <;> simp_all

namespace Nscd

/-- The decision a request gets. -/
def decisionOn (engine : PolicyEngine cel) (request : Request) (caller : Caller) :
    Option Decision :=
  request.hostname.map (fun hostname => (engine.evaluateFor hostname caller).decision hostname)

theorem decisionOn_of_key (engine : PolicyEngine cel) (request : Request) (caller : Caller)
    {hostname : Str}
    (hkey : stripNul request.key = Utf8.encode hostname) :
    decisionOn engine request caller =
      if hostname = [] then none
      else some ((engine.evaluateFor hostname caller).decision hostname) := by
  unfold decisionOn
  split
  · next hnil =>
    have hname : request.hostname = none := by
      rw [Request.hostname, hkey, Utf8.decode_encode, hnil]
      rfl
    rw [hname]
    rfl
  · next hne =>
    rw [(Request.hostname_eq_some_iff request hostname).mpr ⟨hne, hkey⟩]
    rfl

section
variable [NativeEndian] (engine : PolicyEngine cel) (request : Request) (caller : Caller)

/-- A decision on a request, or on one without a name, which is closed upon. -/
def carryOutOn (upstream : Upstream) : Option Decision → Effect Reply
  | none => return .close
  | some decision => carryOut upstream request (request.hostname.getD []) decision

/-- The front-end does what the decision says, whatever the real nscd does. -/
def Takes (decision : Option Decision) : Prop :=
  ∀ upstream,
    (replyFor engine upstream request caller).value =
        (carryOutOn request upstream decision).value ∧
      sentPieces (replyFor engine upstream request caller).trace =
        sentPieces (carryOutOn request upstream decision).trace

theorem takes_decisionOn (hhost : request.ty.isHostLookup = true) :
    Takes engine request caller (decisionOn engine request caller) := by
  intro upstream
  unfold decisionOn
  cases hname : request.hostname with
  | none => simp [replyFor_of_no_name _ _ _ _ hhost hname, carryOutOn]
  | some hostname => simp [replyFor_of_name _ _ _ _ hhost hname, carryOutOn, hname]

/-- A decision that is taken forwards if the request's own does. -/
theorem Takes.forward_iff {engine : PolicyEngine cel} {request : Request} {caller : Caller}
    {decision : Option Decision} (h : Takes engine request caller decision)
    (hhost : request.ty.isHostLookup = true) :
    decision = some .forward ↔ decisionOn engine request caller = some .forward := by
  have hsends : ∀ decision, Takes engine request caller decision →
      (decision = some .forward ↔
        sentPieces (replyFor engine (.answered ⟨[], .eof⟩) request caller).trace ≠ []) := by
    intro decision h
    rw [(h (.answered ⟨[], .eof⟩)).2]
    match decision with
    | none => simp [carryOutOn]
    | some .deny => simp [carryOutOn, carryOut]
    | some (.answer addrs) => simp [carryOutOn, carryOut]
    | some .forward => simp [carryOutOn, carryOut, trace_forwardHost, forward]
  rw [hsends _ h, hsends _ (takes_decisionOn engine request caller hhost)]

/-- And it closes if the request's own does. -/
theorem Takes.none_iff {engine : PolicyEngine cel} {request : Request} {caller : Caller}
    {decision : Option Decision} (h : Takes engine request caller decision)
    (hhost : request.ty.isHostLookup = true) :
    decision = none ↔ decisionOn engine request caller = none := by
  have hcloses : ∀ decision, Takes engine request caller decision →
      (decision = none ↔
        (replyFor engine .connectStall request caller).value = .close) := by
    intro decision h
    rw [(h .connectStall).1]
    match decision with
    | none => simp [carryOutOn]
    | some .deny => simp [carryOutOn, carryOut]
    | some (.answer addrs) => simp [carryOutOn, carryOut]
    | some .forward => simp [carryOutOn, carryOut, forwardHost, forward]
  rw [hcloses _ h, hcloses _ (takes_decisionOn engine request caller hhost)]

/-- Two requests for one canonical name are decided alike exactly when both or
neither have a name, and the records, if they count, are found for both. -/
theorem takes_same_iff {engine : PolicyEngine cel} {request request' : Request} {caller : Caller}
    {hostname hostname' : Str} (hcanon : canonicalHostname hostname = canonicalHostname hostname')
    (hhost : request.ty.isHostLookup = true) (hty : request'.ty = request.ty)
    (hkey : stripNul request.key = Utf8.encode hostname)
    (hkey' : stripNul request'.key = Utf8.encode hostname') :
    (∃ decision, Takes engine request caller decision ∧ Takes engine request' caller decision) ↔
      ((hostname = [] ↔ hostname' = []) ∧
        (engine.evaluateFor hostname caller = .allowed → SameRecords hostname hostname')) := by
  have hhost' : request'.ty.isHostLookup = true := by rw [hty, hhost]
  have hdecision := decisionOn_of_key engine request caller hkey
  have hdecision' := decisionOn_of_key engine request' caller hkey'
  rw [← engine.evaluateFor_congr hcanon caller] at hdecision'
  constructor
  · rintro ⟨decision, h, h'⟩
    have hnone := (h.none_iff hhost).symm.trans (h'.none_iff hhost')
    have hforward := (h.forward_iff hhost).symm.trans (h'.forward_iff hhost')
    have hempty : hostname = [] ↔ hostname' = [] := by
      rw [hdecision, hdecision'] at hnone
      simpa using hnone
    refine ⟨hempty, ?_⟩
    intro hallowed
    by_cases hnil : hostname = []
    · rw [hnil, hempty.mp hnil]
      exact Iff.rfl
    · have hnil' : hostname' ≠ [] := fun h => hnil (hempty.mpr h)
      rw [hdecision, hdecision', if_neg hnil, if_neg hnil', hallowed, Option.some.injEq,
        Option.some.injEq, PolicyVerdict.decision_eq_forward_iff,
        PolicyVerdict.decision_eq_forward_iff] at hforward
      simp only [LetsThrough, reduceCtorEq, true_and, false_or] at hforward
      rw [← not_iff_not, ← ne_eq, ← ne_eq, upstreamResolve_ne_nil_iff,
        upstreamResolve_ne_nil_iff] at hforward
      exact hforward
  · rintro ⟨hempty, hrecords⟩
    refine ⟨decisionOn engine request caller, takes_decisionOn engine request caller hhost, ?_⟩
    have hsame : decisionOn engine request caller = decisionOn engine request' caller := by
      rw [hdecision, hdecision']
      by_cases hnil : hostname = []
      · rw [if_pos hnil, if_pos (hempty.mp hnil)]
      · rw [if_neg hnil, if_neg (fun h => hnil (hempty.mpr h))]
        exact congrArg some (PolicyVerdict.decision_congr _
          (fun hallowed => (upstreamResolve_eq_iff _ _).mpr (hrecords hallowed)))
    rw [hsame]
    exact takes_decisionOn engine request' caller hhost'

end

end Nscd

theorem Daemon.response_same_iff (engine : PolicyEngine cel) (relays : Relays) (caller : Caller)
    {hostname hostname' : Str}
    (hcanon : canonicalHostname hostname = canonicalHostname hostname') :
    Daemon.response engine relays caller ⟨hostname⟩ =
        Daemon.response engine relays caller ⟨hostname'⟩ ↔
      (relays.contains caller = false → engine.evaluateFor hostname caller = .allowed →
        SameRecords hostname hostname') := by
  unfold Daemon.response
  cases hrelay : relays.contains caller with
  | true => simp
  | false =>
    simp only [Bool.false_eq_true, if_false, ← engine.evaluateFor_congr hcanon caller]
    cases hverdict : engine.evaluateFor hostname caller with
    | denied reason => simp
    | passThrough => simp
    | allowed =>
      rw [← upstreamResolve_eq_iff]
      by_cases h : upstreamResolve hostname = []
      · by_cases h' : upstreamResolve hostname' = []
        · simp [h, h']
        · simp [h, h', Ne.symm h']
      · by_cases h' : upstreamResolve hostname' = []
        · simp [h, h']
        · simp [h, h']

/-- Spellings of one name are treated alike exactly where the daemon has no
records for them, or has them for both, and none is empty but all. -/
theorem spelling_iff [NativeEndian] (engine : PolicyEngine cel) (caller : Caller)
    {hostname hostname' : Str}
    (hcanon : canonicalHostname hostname = canonicalHostname hostname') :
    (∀ request request' : Nscd.Request, request.ty.isHostLookup = true →
      request'.ty = request.ty → Nscd.stripNul request.key = Utf8.encode hostname →
      Nscd.stripNul request'.key = Utf8.encode hostname' →
      ((∃ decision, Nscd.Takes engine request caller decision ∧
          Nscd.Takes engine request' caller decision) ↔
        ((hostname = [] ↔ hostname' = []) ∧
          (engine.evaluateFor hostname caller = .allowed → SameRecords hostname hostname')))) ∧
    (∀ relays : Relays,
      Daemon.response engine relays caller ⟨hostname⟩ =
          Daemon.response engine relays caller ⟨hostname'⟩ ↔
        (relays.contains caller = false → engine.evaluateFor hostname caller = .allowed →
          SameRecords hostname hostname')) :=
  ⟨fun _ _ hhost hty hkey hkey' => Nscd.takes_same_iff hcanon hhost hty hkey hkey',
    fun relays => Daemon.response_same_iff engine relays caller hcanon⟩

theorem spelling_blocked :
    (∃ decision, @Nscd.Takes _ Nscd.littleEndian PolicyEngine.testEngine
        (Nscd.getAi (Utf8.encode "Blocked.Test.".toList ++ [0])) .unknown decision ∧
      @Nscd.Takes _ Nscd.littleEndian PolicyEngine.testEngine
        (Nscd.getAi (Utf8.encode "blocked.test".toList ++ [0])) .unknown decision) ∧
    Daemon.response PolicyEngine.testEngine ⟨∅⟩ .unknown ⟨"Blocked.Test.".toList⟩ =
      Daemon.response PolicyEngine.testEngine ⟨∅⟩ .unknown ⟨"blocked.test".toList⟩ := by
  have hcanon : canonicalHostname "Blocked.Test.".toList =
      canonicalHostname "blocked.test".toList := by decide
  have hrecords : SameRecords "Blocked.Test.".toList "blocked.test".toList := by
    unfold SameRecords
    decide
  obtain ⟨hnscd, hsocket⟩ := @spelling_iff _ Nscd.littleEndian PolicyEngine.testEngine .unknown
    _ _ hcanon
  have hsame := hnscd (Nscd.getAi (Utf8.encode "Blocked.Test.".toList ++ [0]))
    (Nscd.getAi (Utf8.encode "blocked.test".toList ++ [0])) rfl rfl (by decide) (by decide)
  exact ⟨hsame.mpr ⟨by decide, fun _ => hrecords⟩, (hsocket ⟨∅⟩).mpr (fun _ _ => hrecords)⟩

/-- The daemon's own record is found under one spelling of its name only. -/
theorem spelling_hides_record :
    canonicalHostname "Example.Local".toList = canonicalHostname "example.local".toList ∧
    Daemon.response PolicyEngine.testEngine ⟨∅⟩ .unknown ⟨"example.local".toList⟩ =
      .resolved [.v4 ⟨[10, 0, 0, 1], rfl⟩] ∧
    Daemon.response PolicyEngine.testEngine ⟨∅⟩ .unknown ⟨"Example.Local".toList⟩ =
      .passThrough ∧
    sentPieces (@Nscd.replyFor Nscd.littleEndian _ PolicyEngine.testEngine
        (.answered ⟨[], .eof⟩) (Nscd.getAi (Utf8.encode "example.local".toList ++ [0]))
        .unknown).trace = [] ∧
    sentPieces (@Nscd.replyFor Nscd.littleEndian _ PolicyEngine.testEngine
        (.answered ⟨[], .eof⟩) (Nscd.getAi (Utf8.encode "Example.Local".toList ++ [0]))
        .unknown).trace = [(Nscd.getAi (Utf8.encode "Example.Local".toList ++ [0])).raw] := by
  refine ⟨by decide, by decide, by decide, by decide, by decide⟩

end Deezns
