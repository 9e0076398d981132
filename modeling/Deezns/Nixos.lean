import Deezns.HostsChain
import Deezns.Mediation

/-!
# Lookups on NixOS

On NixOS the lookups of all processes go through nsncd, behind the nscd front-end
where it is enabled, and nsncd takes the sources of the `hosts` line by priority. The
DNS front-end lets nsncd's queries pass where another front-end has judged them, and
the order of the sources decides whether that is so.
-/
namespace Deezns.Nixos

open Nsswitch (Answer Source asked passed)
open Nss (AddressFamily Found Host)
open Octets (NativeEndian)
open Utf8 (Str encode)

/-- What the NixOS module makes of `services.deezns`, as far as lookups go. -/
structure Machine where
  settings : PolicyConfig
  nscdUser : Str
  written : settings.nscdUser = some nscdUser
  /-- As in all strings of Nix. -/
  nulFree : 0 ∉ encode nscdUser
  nssOrder : Int

/-- The priority of `dns` in the `hosts` line. -/
def dnsNssOrder : Int := 1499

/-- The module's assertion on the order of the sources. -/
def Machine.Asserted (machine : Machine) : Prop :=
  machine.settings.dns.isSome = true →
    machine.settings.nss = true ∧ machine.settings.nscd.isSome = false →
      machine.nssOrder < dnsNssOrder

/-- A lookup on a machine, with all that it may meet. -/
structure Scene (cel : Cel) where
  engine : PolicyEngine cel
  relays : ListenerRelays
  lookup : Lookup
  family : AddressFamily
  nscd : Nscd.Upstream
  dns : Dns.Upstream
  json : Nss.Json
  daemonJson : Daemon.Json
  /-- What the resolver of the source `dns` makes of the reply. -/
  answer : Option (Answer Host)
  /-- The sources that are neither the module nor `dns`. -/
  others : List (Int × Source Event Host)

namespace Scene

variable {cel : Cel} (scene : Scene cel) (machine : Machine)

/-- The daemon, as the module finds it inside of nsncd. -/
def found : Found cel :=
  .running scene.daemonJson scene.engine scene.relays.policySocket scene.lookup.nscd

def deeznsSource : Source Event Host :=
  scene.found.source scene.json scene.lookup.hostname scene.family

/-- What the DNS front-end does for the query of the source `dns`. -/
def atDns : List Event :=
  machine.settings.dns.elim []
    (fun config => (scene.lookup.atDns scene.engine scene.relays scene.dns config).trace)

def dnsSource : Source Event Host := ⟨⟨scene.answer, scene.atDns machine⟩, []⟩

/-- The sources of the `hosts` line but for `dns`. -/
def rest : List (Int × Source Event Host) :=
  (if machine.settings.nss then [(machine.nssOrder, scene.deeznsSource)] else []) ++ scene.others

/-- A `hosts` line: the sources by priority, and those of one priority in any order. -/
structure IsLine (line : List (Int × Source Event Host)) : Prop where
  perm : line.Perm ((dnsNssOrder, scene.dnsSource machine) :: scene.rest machine)
  sorted : line.Pairwise (fun a b => a.1 ≤ b.1)

/-- The daemon runs with the machine's settings, nsncd is the user it is said to be, and
nothing else knows of the daemon. -/
structure Sound : Prop where
  user : ∃ (passwd : Passwd) (n : UInt32), passwd.uidOf machine.nscdUser = .ok (some n) ∧
    ListenerRelays.forConfig passwd machine.settings = .ok scene.relays ∧
    scene.lookup.nscd.uid = some n ∧
    ∀ config, machine.settings.dns = some config →
      machine.settings.nscd.isSome = true ∨ machine.settings.nss = true →
        (scene.lookup.resolver config).uid = some n
  asks : ∀ config, machine.settings.dns = some config →
    ∃ query, Dns.Query.parse scene.lookup.message = .ok query ∧
      canonicalHostname query.question.hostname = canonicalHostname scene.lookup.hostname
  agrees : scene.found.Agrees scene.json scene.lookup.hostname
  silent : ∀ source ∈ scene.others, source.2.lookup.trace = []

section
variable [NativeEndian]

/-- What the nscd front-end does for the lookup. -/
def atNscd : List Event :=
  (Nscd.replyFor scene.engine scene.nscd scene.lookup.request scene.lookup.caller).trace

/-- The lookup gets to nsncd. -/
def reachesNsncd : Bool :=
  !machine.settings.nscd.isSome || (sentPieces scene.atNscd).contains scene.lookup.request.raw

/-- All that is done for the lookup. -/
def way (line : List (Int × Source Event Host)) : List Event :=
  (if machine.settings.nscd.isSome then scene.atNscd else []) ++
    if scene.reachesNsncd machine then (Nsswitch.lookup (line.map Prod.snd)).trace else []

/-- The policy was asked once along the way, about the name, and lets it through. -/
def Judged (line : List (Int × Source Event Host)) : Prop :=
  ∃ name, canonicalHostname name = canonicalHostname scene.lookup.hostname ∧
    questions (scene.way machine line) = [(name, scene.lookup.firstCaller machine.settings)] ∧
    LetsThrough name
      (scene.engine.evaluateFor name (scene.lookup.firstCaller machine.settings))

end

variable {scene machine}

theorem Sound.relaysFit (h : scene.Sound machine) :
    scene.lookup.RelaysFit machine.settings scene.relays := by
  obtain ⟨passwd, n, hn, hrelays, hnscd, hresolver⟩ := h.user
  obtain ⟨relays, hrelays', hcontains⟩ := ListenerRelays.exists_forConfig machine.written hn
  obtain rfl : relays = scene.relays := Except.ok.inj (hrelays'.symm.trans hrelays)
  refine ⟨(hcontains _ hnscd).1, fun config hconfig => ?_⟩
  cases hdns : (relaying machine.settings).2 with
  | true =>
    have hbehind := (relaying_dns_iff machine.settings).mp hdns
    rw [(hcontains _ (hresolver config hconfig hbehind)).2, hdns]
  | false =>
    rw [← Bool.not_eq_true]
    intro hrelay
    rw [(ListenerRelays.relaying_of_contains hrelays _).2 hrelay] at hdns
    cases hdns

/-- Of the `hosts` line, but for `dns`. -/
theorem IsLine.perm_rest {before after : List (Int × Source Event Host)}
    (h : scene.IsLine machine (before ++ (dnsNssOrder, scene.dnsSource machine) :: after)) :
    (before ++ after).Perm (scene.rest machine) :=
  (List.perm_middle.symm.trans h.perm).cons_inv

/-- A source that comes first by its priority does come first. -/
theorem IsLine.mem_before {before after : List (Int × Source Event Host)}
    (h : scene.IsLine machine (before ++ (dnsNssOrder, scene.dnsSource machine) :: after))
    {entry : Int × Source Event Host} (hmem : entry ∈ scene.rest machine)
    (hlt : entry.1 < dnsNssOrder) : entry ∈ before := by
  have hboth : entry ∈ before ++ after := h.perm_rest.symm.subset hmem
  refine (List.mem_append.mp hboth).resolve_right fun hafter => ?_
  have hle := (List.pairwise_cons.mp (List.pairwise_append.mp h.sorted).2.1).1 entry hafter
  exact absurd hlt (Int.not_lt.mpr hle)

/-- The sources that ask nothing. -/
def Quiet (sources : List (Source Event Host)) : Prop :=
  ∀ source ∈ sources, questions source.lookup.trace = []

theorem Quiet.questions_lookupFrom {sources : List (Source Event Host)} (h : Quiet sources)
    (last : Answer Host) : questions (Nsswitch.lookupFrom last sources).trace = [] := by
  rw [List.eq_nil_iff_forall_not_mem]
  rintro ⟨name, caller⟩ hmem
  obtain ⟨source, hsource, hevent⟩ :=
    Nsswitch.exists_source_of_mem ((mem_questions_iff _ _ _).mp hmem)
  have hasked := (mem_questions_iff _ _ _).mpr hevent
  rw [h source hsource] at hasked
  cases hasked

theorem Quiet.questions_asked {sources : List (Source Event Host)} (h : Quiet sources) :
    questions (asked sources) = [] := by
  induction sources with
  | nil => rfl
  | cons source rest ih =>
    obtain ⟨hsource, hrest⟩ := List.forall_mem_cons.mp h
    rw [Nsswitch.asked_cons, questions_append, hsource, ih hrest, List.append_nil]

/-- Before quiet sources, the first one alone asks. -/
theorem questions_lookup_cons {source : Source Event Host} {rest : List (Source Event Host)}
    (h : Quiet rest) :
    questions (Nsswitch.lookup (source :: rest)).trace = questions source.lookup.trace := by
  rw [Nsswitch.lookup, Nsswitch.lookupFrom_cons]
  cases source.lookup.value with
  | none => rfl
  | some answer =>
    dsimp only
    split
    · rfl
    · rw [questions_append, h.questions_lookupFrom, List.append_nil]

theorem Sound.quiet_others (h : scene.Sound machine) {entries : List (Int × Source Event Host)}
    (hentries : entries ⊆ scene.others) : Quiet (entries.map Prod.snd) := by
  intro source hsource
  obtain ⟨entry, hentry, rfl⟩ := List.mem_map.mp hsource
  rw [h.silent entry (hentries hentry)]
  rfl

/-- Behind another front-end the DNS front-end asks nothing. -/
theorem Sound.questions_atDns_of_behind (h : scene.Sound machine)
    (hbehind : machine.settings.nscd.isSome = true ∨ machine.settings.nss = true) :
    questions (scene.atDns machine) = [] := by
  unfold atDns
  cases hconfig : machine.settings.dns with
  | none => rfl
  | some config =>
    have hrelay := (h.relaysFit.dns config hconfig).trans ((relaying_dns_iff _).mpr hbehind)
    exact (Lookup.dnsStage_isRelay scene.lookup scene.engine scene.relays scene.dns config
      hrelay).asked

/-- Behind the nscd front-end neither does the policy socket. -/
theorem Sound.trace_found_of_nscd (h : scene.Sound machine)
    (hnscd : machine.settings.nscd.isSome = true) :
    scene.found.trace scene.lookup.hostname = [] :=
  congrArg Traced.trace (h.relaysFit.atSocket scene.engine hnscd)

/-- Behind the nscd front-end all sources are quiet. -/
theorem Sound.quiet_line (h : scene.Sound machine) {line : List (Int × Source Event Host)}
    (hline : scene.IsLine machine line) (hnscd : machine.settings.nscd.isSome = true) :
    Quiet (line.map Prod.snd) := by
  intro source hsource
  obtain ⟨entry, hentry, rfl⟩ := List.mem_map.mp hsource
  have hmem := hline.perm.subset hentry
  rw [List.mem_cons, rest, List.mem_append] at hmem
  rcases hmem with rfl | hmem | hmem
  · exact h.questions_atDns_of_behind (.inl hnscd)
  · have hentry' : entry = (machine.nssOrder, scene.deeznsSource) := by
      split at hmem
      · exact List.mem_singleton.mp hmem
      · cases hmem
    rw [hentry']
    exact congrArg questions (h.trace_found_of_nscd hnscd)
  · rw [h.silent entry hmem]
    rfl

section
variable [NativeEndian]

/-- The nscd front-end has judged what gets to nsncd. -/
theorem Sound.judged_of_nscd (h : scene.Sound machine) {line : List (Int × Source Event Host)}
    (hline : scene.IsLine machine line) (hnscd : machine.settings.nscd.isSome = true)
    (hreaches : scene.reachesNsncd machine = true) : scene.Judged machine line := by
  have hsent : scene.lookup.request.raw ∈ sentPieces scene.atNscd := by
    simpa [reachesNsncd, hnscd] using hreaches
  have hcaller : scene.lookup.firstCaller machine.settings = scene.lookup.caller := if_pos hnscd
  obtain ⟨name, hname, hlets⟩ := (Nscd.mediated_replyFor scene.engine scene.lookup.request
    scene.lookup.caller scene.nscd scene.lookup.isHostLookup).permitted (List.ne_nil_of_mem hsent)
  have hnamed := Lookup.named_of_hostname_request hname
  obtain rfl : scene.lookup.hostname = name :=
    Option.some.inj ((Lookup.hostname_request_of_named hnamed).symm.trans hname)
  refine ⟨_, rfl, ?_, by rwa [hcaller]⟩
  rw [way, if_pos hnscd, if_pos hreaches, questions_append, Nsswitch.lookup,
    (h.quiet_line hline hnscd).questions_lookupFrom, List.append_nil, hcaller]
  exact Lookup.nscdStage_asked_of_named scene.lookup scene.engine scene.nscd hnamed

theorem questions_way_of_passed {before : List (Int × Source Event Host)}
    (hnscd : machine.settings.nscd.isSome = false)
    (hpassed : passed (before.map Prod.snd) = true) (entry : Int × Source Event Host)
    (after : List (Int × Source Event Host)) :
    questions (scene.way machine (before ++ entry :: after)) =
      questions (asked (before.map Prod.snd)) ++
        questions (Nsswitch.lookup (entry.2 :: after.map Prod.snd)).trace := by
  have hreaches : scene.reachesNsncd machine = true := by simp [reachesNsncd, hnscd]
  rw [way, hnscd, if_neg Bool.false_ne_true, if_pos hreaches, List.nil_append, List.map_append,
    List.map_cons, Nsswitch.lookup_append_of_passed hpassed (List.cons_ne_nil _ _),
    questions_append]

/-- Without it, the policy socket has judged what gets past the module. -/
theorem Sound.judged_of_nss (h : scene.Sound machine)
    {before after : List (Int × Source Event Host)}
    (hline : scene.IsLine machine (before ++ (dnsNssOrder, scene.dnsSource machine) :: after))
    (hnscd : machine.settings.nscd.isSome = false) (hnss : machine.settings.nss = true)
    (horder : machine.nssOrder < dnsNssOrder) (hpassed : passed (before.map Prod.snd) = true) :
    scene.Judged machine (before ++ (dnsNssOrder, scene.dnsSource machine) :: after) := by
  have hrest : scene.rest machine = (machine.nssOrder, scene.deeznsSource) :: scene.others := by
    simp [rest, hnss]
  have hmem : (machine.nssOrder, scene.deeznsSource) ∈ before :=
    hline.mem_before (by rw [hrest]; exact List.mem_cons_self) horder
  have hcaller : scene.lookup.firstCaller machine.settings = scene.lookup.nscd := by
    simp [Lookup.firstCaller, hnscd, hnss]
  have hjudges : scene.relays.policySocket.contains scene.lookup.nscd = false := by
    simpa [relaying, hnscd] using h.relaysFit.socket
  obtain ⟨first, second, rfl⟩ := List.append_of_mem hmem
  have hothers : (first ++ second ++ after).Perm scene.others := by
    have hperm := hline.perm_rest
    rw [hrest, List.append_assoc, List.cons_append] at hperm
    rw [List.append_assoc]
    exact (List.perm_middle.symm.trans hperm).cons_inv
  have hfirst : Quiet (first.map Prod.snd) :=
    h.quiet_others fun entry hentry => hothers.subset (by simp [hentry])
  have hsecond : Quiet (second.map Prod.snd) :=
    h.quiet_others fun entry hentry => hothers.subset (by simp [hentry])
  have hafter : Quiet (after.map Prod.snd) :=
    h.quiet_others fun entry hentry => hothers.subset (by simp [hentry])
  have hasked : questions (scene.found.trace scene.lookup.hostname) =
      [(scene.lookup.hostname, scene.lookup.nscd)] := by
    rw [found, Found.trace, Daemon.questions_judge, hjudges, if_neg Bool.false_ne_true]
  have hforward : scene.found.decision scene.lookup.hostname = .forward := by
    rw [List.map_append, List.map_cons, passed, List.all_append, List.all_cons] at hpassed
    have hpasses : scene.deeznsSource.passes = true := by
      simp only [Bool.and_eq_true] at hpassed
      exact hpassed.2.1
    rw [deeznsSource, Nss.passes_source h.agrees] at hpasses
    exact of_decide_eq_true hpasses
  refine ⟨_, rfl, ?_, ?_⟩
  · rw [questions_way_of_passed hnscd hpassed, List.map_append, List.map_cons, asked,
      List.flatMap_append, List.flatMap_cons, questions_append, questions_append,
      questions_lookup_cons hafter, hcaller]
    have hdeezns : questions scene.deeznsSource.lookup.trace =
        [(scene.lookup.hostname, scene.lookup.nscd)] := hasked
    have hdns : questions (scene.dnsSource machine).lookup.trace = [] :=
      h.questions_atDns_of_behind (.inr hnss)
    rw [← asked, ← asked, hfirst.questions_asked, hsecond.questions_asked, hdeezns, hdns]
    rfl
  · rw [hcaller, ← PolicyVerdict.decision_eq_forward_iff]
    simpa [found, Found.decision, hjudges] using hforward

/-- Alone, the DNS front-end judges what it sends. -/
theorem Sound.judged_of_dns (h : scene.Sound machine)
    {before after : List (Int × Source Event Host)}
    (hline : scene.IsLine machine (before ++ (dnsNssOrder, scene.dnsSource machine) :: after))
    (hnscd : machine.settings.nscd.isSome = false) (hnss : machine.settings.nss = false)
    (hpassed : passed (before.map Prod.snd) = true)
    (hsent : sentPieces (scene.atDns machine) ≠ []) :
    scene.Judged machine (before ++ (dnsNssOrder, scene.dnsSource machine) :: after) := by
  have hothers : (before ++ after).Perm scene.others := by
    simpa [rest, hnss] using hline.perm_rest
  have hbefore : Quiet (before.map Prod.snd) :=
    h.quiet_others fun entry hentry => hothers.subset (List.mem_append_left _ hentry)
  have hafter : Quiet (after.map Prod.snd) :=
    h.quiet_others fun entry hentry => hothers.subset (List.mem_append_right _ hentry)
  have hquestions : questions (scene.atDns machine) = questions
      (scene.way machine (before ++ (dnsNssOrder, scene.dnsSource machine) :: after)) := by
    rw [questions_way_of_passed hnscd hpassed, hbefore.questions_asked, List.nil_append,
      questions_lookup_cons hafter]
    rfl
  cases hconfig : machine.settings.dns with
  | none => simp [atDns, hconfig] at hsent
  | some config =>
    obtain ⟨query, hparse, hcanon⟩ := h.asks config hconfig
    have hcaller : scene.lookup.firstCaller machine.settings = scene.lookup.resolver config := by
      simp [Lookup.firstCaller, hnscd, hnss, hconfig]
    have hjudges : scene.relays.dns.contains (scene.lookup.resolver config) = false := by
      have hrelay := h.relaysFit.dns config hconfig
      rwa [relaying, hnscd, hnss] at hrelay
    have hat : scene.atDns machine =
        (scene.lookup.atDns scene.engine scene.relays scene.dns config).trace := by
      simp [atDns, hconfig]
    rw [hat] at hsent hquestions
    obtain ⟨query', hparse', hmay⟩ := (Dns.Frontend.mediated_respond
      (.ofConfig config scene.engine scene.relays.dns) scene.lookup.proc scene.lookup.message
      scene.lookup.peer scene.lookup.transport scene.lookup.server scene.dns).1.permitted hsent
    obtain rfl : query' = query := Except.ok.inj (hparse'.symm.trans hparse)
    refine ⟨query'.question.hostname, hcanon, ?_, ?_⟩
    · rw [← hquestions, Lookup.questions_atDns, hparse]
      simp [hjudges, hcaller]
    · rw [hcaller]
      refine hmay.resolve_left fun hrelay => ?_
      exact absurd (hjudges.symm.trans hrelay) Bool.false_ne_true

end

end Scene

/-- Whatever the DNS front-end sends upstream for a lookup was judged once, by the
first front-end on the way. -/
def Machine.Mediates [NativeEndian] (machine : Machine) : Prop :=
  ∀ (cel : Cel) (scene : Scene cel), scene.Sound machine →
    ∀ before after : List (Int × Source Event Host),
      scene.IsLine machine (before ++ (dnsNssOrder, scene.dnsSource machine) :: after) →
      scene.reachesNsncd machine = true → passed (before.map Prod.snd) = true →
      sentPieces (scene.atDns machine) ≠ [] →
        scene.Judged machine (before ++ (dnsNssOrder, scene.dnsSource machine) :: after)

theorem Machine.Asserted.mediates [NativeEndian] {machine : Machine} (h : machine.Asserted) :
    machine.Mediates := by
  intro cel scene hsound before after hline hreaches hpassed hsent
  cases hnscd : machine.settings.nscd.isSome with
  | true => exact hsound.judged_of_nscd hline hnscd hreaches
  | false =>
    cases hnss : machine.settings.nss with
    | true =>
      have hdns : machine.settings.dns.isSome = true := by
        cases hconfig : machine.settings.dns with
        | none => simp [Scene.atDns, hconfig] at hsent
        | some config => rfl
      exact hsound.judged_of_nss hline hnscd hnss (h hdns ⟨hnss, hnscd⟩) hpassed
    | false => exact hsound.judged_of_dns hline hnscd hnss hpassed hsent

def otherLookup : Lookup :=
  Lookup.testLookup "Other.".toList [5, 111, 116, 104, 101, 114, 0]

/-- An upstream server that takes a query over TCP. -/
def listening : Dns.Upstream := ⟨.stall, .answered ⟨[], .eof⟩⟩

theorem exists_query_otherLookup : ∃ query, Dns.Query.parse otherLookup.message = .ok query ∧
    canonicalHostname query.question.hostname = canonicalHostname otherLookup.hostname ∧
    sentPieces (Dns.forward listening query otherLookup.transport).trace ≠ [] :=
  ⟨_, rfl, by decide, by decide⟩

theorem uid_otherLookup (config : DnsFrontendConfig) :
    (otherLookup.resolver config).uid = some connected.uid := by
  unfold Lookup.resolver
  cases config.identifyProcesses <;> decide

/-- A lookup that the sources of the `hosts` line leave to DNS. -/
def leftToDns (relays : ListenerRelays) : Scene Cel.direct where
  engine := PolicyEngine.testEngine
  relays := relays
  lookup := otherLookup
  family := .unspecified
  nscd := .answered ⟨[], .eof⟩
  dns := listening
  json := Nss.jsonFor (Daemon.response PolicyEngine.testEngine relays.policySocket otherLookup.nscd
    ⟨otherLookup.hostname⟩)
  daemonJson := Nss.daemonJsonFor ⟨otherLookup.hostname⟩
  answer := none
  others := []

theorem exists_sound (machine : Machine) :
    ∃ relays, (leftToDns relays).Sound machine := by
  have hn : Lookup.testPasswd.uidOf machine.nscdUser = .ok (some connected.uid) := by
    rw [Passwd.uidOf, if_neg machine.nulFree]
    rfl
  obtain ⟨relays, hrelays, -⟩ := ListenerRelays.exists_forConfig machine.written hn
  obtain ⟨query, hparse, hcanon, -⟩ := exists_query_otherLookup
  refine ⟨relays, ⟨_, _, hn, hrelays, rfl, fun config _ _ => uid_otherLookup config⟩,
    fun _ _ => ⟨query, hparse, hcanon⟩, Nss.agree_for _ _, fun source hsource => by cases hsource⟩

/-- The module's assertion on the order of the sources is what mediation needs. -/
theorem mediates_iff [NativeEndian] (machine : Machine) :
    machine.Mediates ↔ machine.Asserted := by
  refine ⟨fun h => ?_, Machine.Asserted.mediates⟩
  intro hdns ⟨hnss, hnscd⟩
  by_contra horder
  -- with the module behind `dns`, nsncd's query is let pass though nothing has judged it
  obtain ⟨relays, hsound⟩ := exists_sound machine
  obtain ⟨config, hconfig⟩ := Option.isSome_iff_exists.mp hdns
  obtain ⟨query, hparse, -, hsent⟩ := exists_query_otherLookup
  have hline : (leftToDns relays).IsLine machine
      ([] ++ (dnsNssOrder, (leftToDns relays).dnsSource machine) ::
        [(machine.nssOrder, (leftToDns relays).deeznsSource)]) := by
    constructor
    · simp [Scene.rest, hnss, leftToDns]
    · simpa using Int.not_lt.mp horder
  have hat : (leftToDns relays).atDns machine =
      (Dns.forward listening query otherLookup.transport).trace := by
    rw [Scene.atDns, hconfig, Option.elim_some]
    exact congrArg Traced.trace
      (hsound.relaysFit.atDns PolicyEngine.testEngine listening (.inr hnss) config hconfig query
        hparse)
  have hreaches : (leftToDns relays).reachesNsncd machine = true := by
    simp [Scene.reachesNsncd, hnscd]
  obtain ⟨name, -, hquestions, -⟩ := h _ _ hsound [] _ hline hreaches rfl (by rwa [hat])
  have hquiet : questions (Nsswitch.lookup ((leftToDns relays).dnsSource machine ::
      [(leftToDns relays).deeznsSource])).trace = [] := by
    have hpasses : ((leftToDns relays).dnsSource machine).passes = false := rfl
    rw [Nsswitch.lookup, Nsswitch.lookupFrom_cons_of_not_passes hpasses]
    exact hsound.questions_atDns_of_behind (.inr hnss)
  rw [Scene.questions_way_of_passed hnscd rfl, List.map_nil, List.map_cons, List.map_nil, hquiet]
    at hquestions
  cases hquestions

end Deezns.Nixos
