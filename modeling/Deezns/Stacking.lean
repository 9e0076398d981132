import Deezns.Denials
import Deezns.Relay

/-!
# Stacked front-ends

A lookup of glibc passes the nscd front-end, the policy socket and the DNS
front-end, as many of them as are enabled, each only if the one before lets it
through. The first judges it and the others relay it.
-/
namespace Deezns

open Octets (Bytes NativeEndian)
open Utf8 (Str encode)

/-- What a stage of a chain does with what comes to it. -/
structure Stage (Q : Type) where
  asked : List Q
  passes : Bool
  denies : Prop

namespace Stage

variable {Q : Type}

/-- What the stages ask that are reached. -/
def allAsked : List (Stage Q) → List Q
  | [] => []
  | stage :: rest => stage.asked ++ if stage.passes then allAsked rest else []

def Denied : List (Stage Q) → Prop
  | [] => False
  | stage :: rest => stage.denies ∨ stage.passes = true ∧ Denied rest

/-- A stage without a say. -/
structure IsRelay (stage : Stage Q) : Prop where
  asked : stage.asked = []
  denies : ¬ stage.denies

theorem allAsked_of_relays {stages : List (Stage Q)} (h : ∀ stage ∈ stages, stage.IsRelay) :
    allAsked stages = [] := by
  induction stages with
  | nil => rfl
  | cons stage rest ih =>
    rw [List.forall_mem_cons] at h
    rw [allAsked, h.1.asked, ih h.2, ite_self, List.append_nil]

theorem not_denied_of_relays {stages : List (Stage Q)} (h : ∀ stage ∈ stages, stage.IsRelay) :
    ¬ Denied stages := by
  induction stages with
  | nil => exact id
  | cons stage rest ih =>
    rw [List.forall_mem_cons] at h
    rintro (hdenies | ⟨_, hdenied⟩)
    · exact h.1.denies hdenies
    · exact ih h.2 hdenied

/-- Before relays, the first stage alone has a say. -/
theorem allAsked_cons (stage : Stage Q) {rest : List (Stage Q)}
    (h : ∀ stage ∈ rest, stage.IsRelay) : allAsked (stage :: rest) = stage.asked := by
  rw [allAsked, allAsked_of_relays h, ite_self, List.append_nil]

theorem denied_cons_iff (stage : Stage Q) {rest : List (Stage Q)}
    (h : ∀ stage ∈ rest, stage.IsRelay) : Denied (stage :: rest) ↔ stage.denies := by
  simp [Denied, not_denied_of_relays h]

end Stage

variable {cel : Cel}

namespace Daemon

/-- The response to one request, with what the policy is asked for it. -/
def judge (engine : PolicyEngine cel) (relays : Relays) (caller : Caller)
    (req : ResolveRequest) : Effect ResolveResponse :=
  if relays.contains caller then return .passThrough
  else do
    match ← engine.ask req.hostname caller with
    | .denied reason => return .denied reason
    | .passThrough => return .passThrough
    | .allowed =>
      let addrs := upstreamResolve req.hostname
      if addrs.isEmpty then return .passThrough else return .resolved addrs

variable (engine : PolicyEngine cel) (relays : Relays) (caller : Caller) (req : ResolveRequest)

theorem value_judge :
    (judge engine relays caller req).value = response engine relays caller req := by
  unfold judge response
  split
  · rfl
  · simp only [Traced.value_bind, PolicyEngine.value_ask]
    cases engine.evaluateFor req.hostname caller with
    | denied reason => rfl
    | passThrough => rfl
    | allowed =>
      simp only
      split <;> rfl

theorem questions_judge : questions (judge engine relays caller req).trace =
    if relays.contains caller then [] else [(req.hostname, caller)] := by
  unfold judge
  split
  · rfl
  · simp only [Traced.trace_bind, PolicyEngine.trace_ask, PolicyEngine.value_ask]
    cases engine.evaluateFor req.hostname caller with
    | denied reason => rfl
    | passThrough => rfl
    | allowed =>
      simp only
      split <;> rfl

end Daemon

/-- The front-end of a configuration, with its relays. -/
def Dns.Frontend.ofConfig (config : DnsFrontendConfig) (engine : PolicyEngine cel)
    (relays : Relays) : Dns.Frontend cel := ⟨config.identifyProcesses, engine, relays⟩

/-- One lookup, as it comes to each listener. -/
structure Lookup where
  /-- The name, as glibc has it: bytes, which need not be a text. -/
  name : Bytes
  /-- The text that goes on as the name. -/
  hostname : Str
  text : ∀ s, name = encode s → hostname = s
  /-- Whose lookup it is. -/
  caller : Caller
  request : Nscd.Request
  isHostLookup : request.ty.isHostLookup = true
  key : request.key = name ++ [0]
  /-- nscd, as the policy socket sees it. -/
  nscd : Caller
  message : Bytes
  proc : Option ProcFs
  peer : SocketAddr
  transport : Transport
  server : SocketAddr

namespace Lookup

/-- nscd, as the DNS front-end sees it. -/
def resolver (lookup : Lookup) (config : DnsFrontendConfig) : Caller :=
  match lookup.proc with
  | some proc =>
    identify proc lookup.transport lookup.peer lookup.server config.identifyProcesses
  | none => .unknown

/-- The message that nscd sends asks for the name, and its socket is found. -/
structure Reaches (lookup : Lookup) (config : DnsFrontendConfig) (n : UInt32) : Prop where
  asks : ∃ query, Dns.Query.parse lookup.message = .ok query ∧
    canonicalHostname query.question.hostname = canonicalHostname lookup.hostname
  uid : (lookup.resolver config).uid = some n

/-- The name is a text, and not the empty one. -/
def Named (lookup : Lookup) : Prop := ∃ s, s ≠ [] ∧ lookup.name = encode s

theorem hostname_request_eq_some_iff (lookup : Lookup) (s : Str) :
    lookup.request.hostname = some s ↔ s ≠ [] ∧ lookup.name = encode s := by
  rw [Nscd.Request.hostname_eq_some_iff, lookup.key]
  simp [Nscd.stripNul]

theorem hostname_request_of_named {lookup : Lookup} (h : lookup.Named) :
    lookup.request.hostname = some lookup.hostname := by
  obtain ⟨s, hne, hname⟩ := h
  rw [lookup.text s hname]
  exact (hostname_request_eq_some_iff lookup s).mpr ⟨hne, hname⟩

theorem named_of_hostname_request {lookup : Lookup} {s : Str}
    (h : lookup.request.hostname = some s) : lookup.Named :=
  ⟨s, (hostname_request_eq_some_iff lookup s).mp h⟩

section
variable (lookup : Lookup) (engine : PolicyEngine cel) (relays : ListenerRelays)
  (upstream : Dns.Upstream) (config : DnsFrontendConfig)

def atSocket : Effect Daemon.ResolveResponse :=
  Daemon.judge engine relays.policySocket lookup.nscd ⟨lookup.hostname⟩

def socketStage : Stage (Str × Caller) :=
  { asked := questions (lookup.atSocket engine relays).trace
    passes := decide ((lookup.atSocket engine relays).value = .passThrough)
    denies := Daemon.Denies engine relays.policySocket lookup.nscd ⟨lookup.hostname⟩ }

def atDns : Effect Bytes :=
  (Dns.Frontend.ofConfig config engine relays.dns).respond upstream lookup.proc lookup.message
    lookup.peer lookup.transport lookup.server

def dnsStage : Stage (Str × Caller) :=
  { asked := questions (lookup.atDns engine relays upstream config).trace
    passes :=
      decide (lookup.message ∈ sentPieces (lookup.atDns engine relays upstream config).trace)
    denies := (Dns.Frontend.ofConfig config engine relays.dns).Denies lookup.proc lookup.message
      lookup.peer lookup.transport lookup.server }

/-- A stage that asks about the name and does as the policy says. -/
structure Judges (stage : Stage (Str × Caller)) (caller : Caller) : Prop where
  asked : ∃ name, canonicalHostname name = canonicalHostname lookup.hostname ∧
    stage.asked = [(name, caller)]
  denies : stage.denies ↔ ∃ reason, engine.evaluateFor lookup.hostname caller = .denied reason

theorem socketStage_judges (h : relays.policySocket.contains lookup.nscd = false) :
    lookup.Judges engine (lookup.socketStage engine relays) lookup.nscd := by
  refine ⟨⟨_, rfl, ?_⟩, Daemon.denies_iff _ _ _ _ h⟩
  simp [socketStage, atSocket, Daemon.questions_judge, h]

theorem atSocket_of_relay (h : relays.policySocket.contains lookup.nscd = true) :
    lookup.atSocket engine relays = pure .passThrough := by
  simp [atSocket, Daemon.judge, h]

theorem socketStage_isRelay (h : relays.policySocket.contains lookup.nscd = true) :
    (lookup.socketStage engine relays).IsRelay :=
  ⟨by simp [socketStage, atSocket_of_relay _ _ _ h], Daemon.not_denies_of_relay _ _ _ _ h⟩

theorem questions_atDns : questions (lookup.atDns engine relays upstream config).trace =
    match Dns.Query.parse lookup.message with
    | .error _ => []
    | .ok query =>
      if relays.dns.contains (lookup.resolver config) then []
      else [(query.question.hostname, lookup.resolver config)] :=
  Dns.Frontend.questions_respond _ _ _ _ _ _ _

theorem dnsStage_judges {n : UInt32} (hreaches : lookup.Reaches config n)
    (h : relays.dns.contains (lookup.resolver config) = false) :
    lookup.Judges engine (lookup.dnsStage engine relays upstream config)
      (lookup.resolver config) := by
  obtain ⟨query, hparse, hcanon⟩ := hreaches.asks
  refine ⟨⟨query.question.hostname, hcanon, ?_⟩, ?_⟩
  · simp [dnsStage, questions_atDns, hparse, h]
  · rw [← engine.evaluateFor_congr hcanon]
    exact Dns.Frontend.denies_iff (.ofConfig config engine relays.dns) _ _ _ _ _ hparse h

theorem atDns_of_relay {query : Dns.Query} (hparse : Dns.Query.parse lookup.message = .ok query)
    (h : relays.dns.contains (lookup.resolver config) = true) :
    lookup.atDns engine relays upstream config =
      Dns.forward upstream query lookup.transport :=
  Dns.Frontend.respond_of_relay _ _ _ _ _ _ _ hparse h

theorem dnsStage_isRelay (h : relays.dns.contains (lookup.resolver config) = true) :
    (lookup.dnsStage engine relays upstream config).IsRelay := by
  refine ⟨?_, Dns.Frontend.not_denies_of_relay _ _ _ _ _ _ h⟩
  simp only [dnsStage, questions_atDns, h, if_true]
  cases Dns.Query.parse lookup.message <;> rfl

end

/-- nscd is a relay of the listeners exactly where the configuration says so. -/
structure RelaysFit (lookup : Lookup) (cfg : PolicyConfig) (relays : ListenerRelays) : Prop where
  socket : relays.policySocket.contains lookup.nscd = (relaying cfg).1
  dns : ∀ config, cfg.dns = some config →
    relays.dns.contains (lookup.resolver config) = (relaying cfg).2

namespace RelaysFit

variable {lookup : Lookup} {cfg : PolicyConfig} {relays : ListenerRelays}
  (engine : PolicyEngine cel) (upstream : Dns.Upstream)

theorem atSocket (h : lookup.RelaysFit cfg relays) (hnscd : cfg.nscd.isSome = true) :
    lookup.atSocket engine relays = pure .passThrough :=
  atSocket_of_relay _ _ _ (h.socket.trans hnscd)

theorem atDns (h : lookup.RelaysFit cfg relays)
    (hbehind : cfg.nscd.isSome = true ∨ cfg.nss = true) (config : DnsFrontendConfig)
    (hconfig : cfg.dns = some config) (query : Dns.Query)
    (hparse : Dns.Query.parse lookup.message = .ok query) :
    lookup.atDns engine relays upstream config = Dns.forward upstream query lookup.transport :=
  have hrelay := (h.dns config hconfig).trans ((relaying_dns_iff cfg).mpr hbehind)
  atDns_of_relay _ _ _ _ _ hparse hrelay

theorem dns_isRelay (h : lookup.RelaysFit cfg relays)
    (hbehind : cfg.nscd.isSome = true ∨ cfg.nss = true) :
    ∀ stage ∈ cfg.dns.toList.map (lookup.dnsStage engine relays upstream), stage.IsRelay := by
  intro stage hstage
  obtain ⟨config, hconfig, rfl⟩ := List.mem_map.mp hstage
  have hcontains := h.dns config (Option.mem_toList.mp hconfig)
  exact dnsStage_isRelay _ _ _ _ _ (hcontains.trans ((relaying_dns_iff cfg).mpr hbehind))

/-- All that stands behind the nscd front-end. -/
theorem behind_nscd_isRelay (h : lookup.RelaysFit cfg relays) (hnscd : cfg.nscd.isSome = true) :
    ∀ stage ∈ (if cfg.nss then [lookup.socketStage engine relays] else []) ++
      cfg.dns.toList.map (lookup.dnsStage engine relays upstream), stage.IsRelay := by
  intro stage hstage
  rcases List.mem_append.mp hstage with hstage | hstage
  · cases hnss : cfg.nss with
    | false => simp [hnss] at hstage
    | true =>
      obtain rfl : stage = lookup.socketStage engine relays := by simpa [hnss] using hstage
      exact socketStage_isRelay _ _ _ (h.socket.trans hnscd)
  · exact h.dns_isRelay engine upstream (.inl hnscd) stage hstage

end RelaysFit

section
variable [NativeEndian] (lookup : Lookup) (engine : PolicyEngine cel) (cfg : PolicyConfig)
  (relays : ListenerRelays) (nscd : Nscd.Upstream) (dns : Dns.Upstream)

def nscdStage : Stage (Str × Caller) :=
  let reply := Nscd.replyFor engine nscd lookup.request lookup.caller
  { asked := questions reply.trace
    passes := decide (lookup.request.raw ∈ sentPieces reply.trace)
    denies := Nscd.Denies engine lookup.request lookup.caller }

/-- The nscd front-end judges every text but the empty one. -/
theorem nscdStage_asked_of_named (h : lookup.Named) :
    (lookup.nscdStage engine nscd).asked = [(lookup.hostname, lookup.caller)] := by
  rw [nscdStage, Nscd.questions_replyFor _ _ _ _ lookup.isHostLookup, hostname_request_of_named h]

theorem nscdStage_asked_of_not_named (h : ¬ lookup.Named) :
    (lookup.nscdStage engine nscd).asked = [] := by
  have hnone : lookup.request.hostname = none := by
    rw [Option.eq_none_iff_forall_ne_some]
    intro s hs
    exact h (named_of_hostname_request hs)
  rw [nscdStage, Nscd.questions_replyFor _ _ _ _ lookup.isHostLookup, hnone]

theorem nscdStage_judges (h : lookup.Named) :
    lookup.Judges engine (lookup.nscdStage engine nscd) lookup.caller :=
  ⟨⟨_, rfl, nscdStage_asked_of_named lookup engine nscd h⟩,
    Nscd.denies_iff _ _ _ lookup.isHostLookup (hostname_request_of_named h)⟩

/-- The stages of the chain that are enabled. -/
def stages : List (Stage (Str × Caller)) :=
  (if cfg.nscd.isSome then [lookup.nscdStage engine nscd] else []) ++
    (if cfg.nss then [lookup.socketStage engine relays] else []) ++
    cfg.dns.toList.map (lookup.dnsStage engine relays dns)

/-- With whose credentials the first of them sees the lookup. -/
def firstCaller : Caller :=
  if cfg.nscd.isSome then lookup.caller
  else if cfg.nss then lookup.nscd
  else (cfg.dns.map lookup.resolver).getD .unknown

/-- The first listener asks about the name, those behind it nothing, and what
is denied is what the policy denies. -/
structure JudgedOnce : Prop where
  asked : lookup.stages engine cfg relays nscd dns ≠ [] →
    ∃ name, canonicalHostname name = canonicalHostname lookup.hostname ∧
      Stage.allAsked (lookup.stages engine cfg relays nscd dns) = [(name, lookup.firstCaller cfg)]
  denied : lookup.stages engine cfg relays nscd dns ≠ [] →
    (Stage.Denied (lookup.stages engine cfg relays nscd dns) ↔
      ∃ reason, engine.evaluateFor lookup.hostname (lookup.firstCaller cfg) = .denied reason)
  relayed : ∀ stage ∈ (lookup.stages engine cfg relays nscd dns).tail, stage.IsRelay
  atSocket : cfg.nscd.isSome = true → lookup.atSocket engine relays = pure .passThrough
  atDns : cfg.nscd.isSome = true ∨ cfg.nss = true → ∀ config, cfg.dns = some config →
    ∀ query, Dns.Query.parse lookup.message = .ok query →
      lookup.atDns engine relays dns config = Dns.forward dns query lookup.transport

variable {lookup cfg relays}

namespace RelaysFit

/-- A judge before relays. -/
theorem judgedOnce_of_cons (h : lookup.RelaysFit cfg relays) {first : Stage (Str × Caller)}
    {rest : List (Stage (Str × Caller))}
    (hstages : lookup.stages engine cfg relays nscd dns = first :: rest)
    (hfirst : lookup.Judges engine first (lookup.firstCaller cfg))
    (hrest : ∀ stage ∈ rest, stage.IsRelay) : lookup.JudgedOnce engine cfg relays nscd dns := by
  refine ⟨fun _ => ?_, fun _ => ?_, ?_, h.atSocket engine, h.atDns engine dns⟩
  · rw [hstages, Stage.allAsked_cons first hrest]
    exact hfirst.asked
  · rw [hstages, Stage.denied_cons_iff first hrest]
    exact hfirst.denies
  · rw [hstages]
    exact hrest

/-- The nscd front-end comes first. -/
theorem judgedOnce_of_nscd (h : lookup.RelaysFit cfg relays) (hnscd : cfg.nscd.isSome = true) :
    lookup.JudgedOnce engine cfg relays nscd dns ↔ lookup.Named := by
  have hrest := h.behind_nscd_isRelay engine dns hnscd
  have hstages : lookup.stages engine cfg relays nscd dns = lookup.nscdStage engine nscd ::
      ((if cfg.nss then [lookup.socketStage engine relays] else []) ++
        cfg.dns.toList.map (lookup.dnsStage engine relays dns)) := by
    simp [stages, hnscd]
  constructor
  · intro hjudged
    by_contra hnot
    obtain ⟨name, -, hasked⟩ := hjudged.asked (by simp [hstages])
    rw [hstages, Stage.allAsked_cons _ hrest, nscdStage_asked_of_not_named _ _ _ hnot] at hasked
    cases hasked
  · intro hnamed
    have hcaller : lookup.firstCaller cfg = lookup.caller := if_pos hnscd
    refine h.judgedOnce_of_cons engine nscd dns hstages ?_ hrest
    rw [hcaller]
    exact nscdStage_judges _ _ _ hnamed

/-- The policy socket comes first. -/
theorem judgedOnce_of_nss (h : lookup.RelaysFit cfg relays) (hnscd : cfg.nscd.isSome = false)
    (hnss : cfg.nss = true) : lookup.JudgedOnce engine cfg relays nscd dns := by
  have hstages : lookup.stages engine cfg relays nscd dns = lookup.socketStage engine relays ::
      cfg.dns.toList.map (lookup.dnsStage engine relays dns) := by
    simp [stages, hnscd, hnss]
  have hcaller : lookup.firstCaller cfg = lookup.nscd := by simp [firstCaller, hnscd, hnss]
  refine h.judgedOnce_of_cons engine nscd dns hstages ?_ (h.dns_isRelay engine dns (.inr hnss))
  rw [hcaller]
  exact socketStage_judges _ _ _ (h.socket.trans hnscd)

/-- The DNS front-end is alone, or there is nothing. -/
theorem judgedOnce_of_dns {n : UInt32} (h : lookup.RelaysFit cfg relays)
    (hnscd : cfg.nscd.isSome = false) (hnss : cfg.nss = false)
    (hreaches : ∀ config, cfg.dns = some config → lookup.Reaches config n) :
    lookup.JudgedOnce engine cfg relays nscd dns := by
  cases hconfig : cfg.dns with
  | none =>
    have hstages : lookup.stages engine cfg relays nscd dns = [] := by
      simp [stages, hnscd, hnss, hconfig]
    refine ⟨fun hne => absurd hstages hne, fun hne => absurd hstages hne, ?_, h.atSocket engine,
      h.atDns engine dns⟩
    simp [hstages]
  | some config =>
    have hstages : lookup.stages engine cfg relays nscd dns =
        [lookup.dnsStage engine relays dns config] := by
      simp [stages, hnscd, hnss, hconfig]
    have hcaller : lookup.firstCaller cfg = lookup.resolver config := by
      simp [firstCaller, hnscd, hnss, hconfig]
    have hoff : (relaying cfg).2 = false := by simp [relaying, hnscd, hnss]
    refine h.judgedOnce_of_cons engine nscd dns hstages ?_ (by simp)
    rw [hcaller]
    exact dnsStage_judges _ _ _ _ _ (hreaches config hconfig) ((h.dns config hconfig).trans hoff)

theorem judgedOnce_iff {n : UInt32} (h : lookup.RelaysFit cfg relays)
    (hreaches : ∀ config, cfg.dns = some config → lookup.Reaches config n) :
    lookup.JudgedOnce engine cfg relays nscd dns ↔
      (cfg.nscd.isSome = true → lookup.Named) := by
  cases hnscd : cfg.nscd.isSome with
  | true =>
    rw [h.judgedOnce_of_nscd engine nscd dns hnscd]
    exact ⟨fun hnamed _ => hnamed, fun hnamed => hnamed rfl⟩
  | false =>
    refine iff_of_true ?_ (by simp)
    cases hnss : cfg.nss with
    | true => exact h.judgedOnce_of_nss engine nscd dns hnscd hnss
    | false => exact h.judgedOnce_of_dns engine nscd dns hnscd hnss hreaches

end RelaysFit

end

/-- Where nscd's user is known, a lookup is judged once, by the first listener
there is, unless the nscd front-end sees the empty name or one that is no text.
Nobody is relayed who has not passed a front-end. -/
theorem judged_once_iff [NativeEndian] (passwd : Passwd) (cfg : PolicyConfig) (user : Str)
    (n : UInt32) (huser : cfg.nscdUser = some user) (hn : passwd.uidOf user = .ok (some n)) :
    ∃ relays, ListenerRelays.forConfig passwd cfg = .ok relays ∧
      (∀ (engine : PolicyEngine cel) (lookup : Lookup) (nscd : Nscd.Upstream)
        (dns : Dns.Upstream), lookup.nscd.uid = some n →
        (∀ config, cfg.dns = some config → lookup.Reaches config n) →
        (lookup.JudgedOnce engine cfg relays nscd dns ↔
          (cfg.nscd.isSome = true → ∃ s, s ≠ [] ∧ lookup.name = encode s))) ∧
      ∀ caller : Caller,
        (relays.policySocket.contains caller = true → cfg.nscd.isSome = true) ∧
        (relays.dns.contains caller = true → cfg.nscd.isSome = true ∨ cfg.nss = true) := by
  obtain ⟨relays, hconfig, hrelays⟩ := ListenerRelays.exists_forConfig huser hn
  refine ⟨relays, hconfig, ?_, ?_⟩
  · intro engine lookup nscd dns huid hreaches
    have hfit : lookup.RelaysFit cfg relays :=
      ⟨(hrelays _ huid).1, fun config hdns => (hrelays _ (hreaches config hdns).uid).2⟩
    exact hfit.judgedOnce_iff engine nscd dns hreaches
  · intro caller
    have hcontains := ListenerRelays.relaying_of_contains hconfig caller
    refine ⟨hcontains.1, fun h => ?_⟩
    exact (relaying_dns_iff cfg).mp (hcontains.2 h)

/-- Every user is that of the test socket. -/
def testPasswd : Passwd where
  getpwnamR := fun _ _ => .entry connected.uid
  fits := fun _ => ⟨0, by decide⟩
  debug := fun user => String.ofList user

/-- All listeners, and the user of nscd. -/
def testStack : PolicyConfig where
  defaultVerdict := .passthrough
  blocklists := []
  rules := []
  nscdUser := some "nscd".toList
  nscdFrontend := some ⟨true, "/nscd".toList, "/real".toList⟩
  dnsFrontend := some ⟨true, ⟨loopback, 53⟩, some ⟨loopback, 5353⟩, 5000, false⟩
  nssFrontend := some ⟨true⟩

/-- A lookup by nscd's socket of a name, in a query with its labels. -/
def testLookup (hostname : Str) (labels : Bytes) : Lookup where
  name := encode hostname
  hostname := hostname
  text := fun s h => by simpa using congrArg Utf8.decode h
  caller := .new 1001 100 42
  request := Nscd.getAi (encode hostname ++ [0])
  isHostLookup := rfl
  key := rfl
  nscd := .new connected.uid 100 7
  message := [0, 7, 1, 0, 0, 1, 0, 0, 0, 0, 0, 0] ++ labels ++ [0, 1, 0, 1]
  proc := some (procFsWith [connected])
  peer := ⟨loopback, 5001⟩
  transport := .tcp
  server := ⟨loopback, 53⟩

/-- A lookup of one byte that is no text; in DNS it becomes a replacement character. -/
def notText : Lookup :=
  { testLookup [Char.ofNat 0xFFFD] [1, 0xFF, 0] with
    name := [0xFF]
    text := fun s h => by
      have hdecode : Utf8.decode [0xFF] = none := by decide
      rw [h, Utf8.decode_encode] at hdecode
      cases hdecode
    request := Nscd.getAi [0xFF, 0]
    isHostLookup := rfl
    key := rfl }

theorem judged_once_stacked :
    ∃ relays, ListenerRelays.forConfig testPasswd testStack = .ok relays ∧
      @JudgedOnce _ Nscd.littleEndian (testLookup "Other.".toList [5, 111, 116, 104, 101, 114, 0])
        PolicyEngine.testEngine testStack relays (.answered ⟨[], .eof⟩)
        ⟨.stall, .answered ⟨[], .eof⟩⟩ := by
  have huser : testPasswd.uidOf "nscd".toList = .ok (some connected.uid) := by decide
  obtain ⟨relays, hrelays, hjudged, -⟩ :=
    @judged_once_iff Cel.direct Nscd.littleEndian testPasswd testStack "nscd".toList connected.uid
      rfl huser
  refine ⟨relays, hrelays, (hjudged _ _ _ _ rfl ?_).mpr
    (fun _ => ⟨"Other.".toList, by decide, rfl⟩)⟩
  intro config hconfig
  obtain rfl := Option.some.inj hconfig
  exact ⟨⟨_, rfl, by decide⟩, by decide⟩

/-- The empty name is not judged at all, nor is one that is no text: the nscd front-end
closes upon it, and nothing behind it is reached. -/
theorem judged_once_needs_a_name :
    ∃ relays, ListenerRelays.forConfig testPasswd testStack = .ok relays ∧
      ∀ lookup ∈ [testLookup [] [0], notText],
        (∀ config, testStack.dns = some config → lookup.Reaches config connected.uid) ∧
        @stages _ Nscd.littleEndian lookup PolicyEngine.testEngine testStack relays
          (.answered ⟨[], .eof⟩) ⟨.stall, .connectStall⟩ ≠ [] ∧
        Stage.allAsked (@stages _ Nscd.littleEndian lookup PolicyEngine.testEngine
          testStack relays (.answered ⟨[], .eof⟩) ⟨.stall, .connectStall⟩) = [] := by
  have huser : testPasswd.uidOf "nscd".toList = .ok (some connected.uid) := by decide
  have hstack : testStack.nscdUser = some "nscd".toList := rfl
  obtain ⟨relays, hrelays, -⟩ := ListenerRelays.exists_forConfig hstack huser
  refine ⟨relays, hrelays, ?_⟩
  rw [List.forall_mem_cons, List.forall_mem_singleton]
  constructor
  · refine ⟨?_, List.cons_ne_nil _ _, rfl⟩
    intro config hconfig
    obtain rfl := Option.some.inj hconfig
    exact ⟨⟨_, rfl, by decide⟩, by decide⟩
  · refine ⟨?_, List.cons_ne_nil _ _, rfl⟩
    intro config hconfig
    obtain rfl := Option.some.inj hconfig
    exact ⟨⟨_, rfl, by decide⟩, by decide⟩

end Lookup

end Deezns
