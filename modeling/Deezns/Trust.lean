import Deezns.BestFit
import Deezns.Stacking

/-!
# Whom the daemon trusts

The policy socket and the DNS front-end pass the lookups of nscd on without judging
them, where another front-end has judged what nscd is asked. They know nscd by its
user alone: over the policy socket from its credentials, over DNS from the sockets that
fit a query best.
-/
namespace Deezns

open Utf8 (Str)

/-- nscd runs as this user, going by the configuration. -/
def IsNscd (passwd : Passwd) (cfg : PolicyConfig) (uid : UInt32) : Prop :=
  ∃ user, cfg.nscdUser = some user ∧ passwd.uidOf user = .ok (some uid)

theorem Relays.resolve_singleton_eq_ok_iff (passwd : Passwd) (user : Str) (users : Relays) :
    resolve passwd [user] = .ok users ↔
      ∃ uid, passwd.uidOf user = .ok (some uid) ∧ users = ⟨{uid}⟩ := by
  cases huser : passwd.uidOf user with
  | error e => simp [resolve, huser, bind, Except.bind]
  | ok found =>
    cases found with
    | none => simp [resolve, huser, bind, Except.bind, throw, throwThe, MonadExceptOf.throw]
    | some uid => simp [resolve_singleton huser, eq_comm]

namespace ListenerRelays

variable {passwd : Passwd} {cfg : PolicyConfig}

/-- The one relay there may be is nscd. -/
theorem contains_nscd_iff {users : Relays} (h : nscd passwd cfg = .ok users)
    (hon : ((relaying cfg).1 || (relaying cfg).2) = true) (caller : Caller) :
    users.contains caller = true ↔ ∃ uid, IsNscd passwd cfg uid ∧ caller.uid = some uid := by
  unfold IsNscd
  cases huser : cfg.nscdUser with
  | none =>
    have husers : users = ⟨∅⟩ := by
      simp only [nscd, huser] at h
      exact (Except.ok.inj h).symm
    rw [husers, Relays.contains_empty]
    simp
  | some user =>
    simp only [nscd, huser, hon, if_true] at h
    obtain ⟨uid, huid, rfl⟩ := (Relays.resolve_singleton_eq_ok_iff passwd user users).mp h
    rw [Relays.contains_singleton_iff]
    constructor
    · intro hcaller
      exact ⟨uid, ⟨user, rfl, huid⟩, hcaller⟩
    · rintro ⟨uid', ⟨user', huser', huid'⟩, hcaller⟩
      cases huser'
      rw [huid, Except.ok.injEq, Option.some.injEq] at huid'
      rw [hcaller, huid']

variable {relays : ListenerRelays} (h : forConfig passwd cfg = .ok relays)
include h

theorem policySocket_contains_iff (caller : Caller) :
    relays.policySocket.contains caller = true ↔
      cfg.nscd.isSome = true ∧ ∃ uid, IsNscd passwd cfg uid ∧ caller.uid = some uid := by
  obtain ⟨users, husers, rfl⟩ := (forConfig_eq_ok_iff _ _ _).mp h
  rw [contains_onlyIf, Bool.and_eq_true]
  apply and_congr_right
  intro hon
  exact contains_nscd_iff husers (by rw [hon, Bool.true_or]) caller

theorem dns_contains_iff (caller : Caller) :
    relays.dns.contains caller = true ↔
      (cfg.nscd.isSome = true ∨ cfg.nss = true) ∧
        ∃ uid, IsNscd passwd cfg uid ∧ caller.uid = some uid := by
  obtain ⟨users, husers, rfl⟩ := (forConfig_eq_ok_iff _ _ _).mp h
  rw [contains_onlyIf, Bool.and_eq_true, ← relaying_dns_iff]
  apply and_congr_right
  intro hon
  exact contains_nscd_iff husers (by rw [hon, Bool.or_true]) caller

end ListenerRelays

/-- All sockets that fit best belong to the user, and there are some. -/
def OwnsBestFit (proc : ProcFs) (transport : Transport) (peer server : SocketAddr)
    (uid : UInt32) : Prop :=
  bestFitting (proc.socketTables transport) peer server ≠ [] ∧
    ∀ row ∈ bestFitting (proc.socketTables transport) peer server, row.uid = uid

variable {cel : Cel}

theorem Dns.Frontend.uid_callerOf_iff (front : Dns.Frontend cel) (proc : Option ProcFs)
    (transport : Transport) (peer server : SocketAddr) (uid : UInt32) :
    (front.callerOf proc transport peer server).uid = some uid ↔
      ∃ shown, proc = some shown ∧ OwnsBestFit shown transport peer server uid := by
  cases proc with
  | none => simp [callerOf, Caller.unknown]
  | some shown =>
    simp only [callerOf, Option.some.injEq, exists_eq_left']
    exact uid_identify_iff shown transport peer server front.identifyProcesses uid

theorem Dns.Frontend.questions_respond_eq_nil_iff (front : Dns.Frontend cel)
    (upstream : Dns.Upstream) (proc : Option ProcFs) {raw : List UInt8} (peer : SocketAddr)
    (transport : Transport) (server : SocketAddr) {query : Dns.Query}
    (hparse : Dns.Query.parse raw = .ok query) :
    questions (front.respond upstream proc raw peer transport server).trace = [] ↔
      front.relays.contains (front.callerOf proc transport peer server) = true := by
  rw [questions_respond, hparse]
  cases front.relays.contains (front.callerOf proc transport peer server) <;> simp

/-- What the listeners do not judge: the policy socket nothing but nscd's requests, and
only behind the nscd front-end; the DNS front-end nothing but the queries from sockets
of nscd's user, and only behind the nscd front-end or the NSS module. -/
theorem unjudged_iff (passwd : Passwd) (cfg : PolicyConfig) (relays : ListenerRelays)
    (h : ListenerRelays.forConfig passwd cfg = .ok relays) (engine : PolicyEngine cel) :
    (∀ (caller : Caller) (req : Daemon.ResolveRequest),
      questions (Daemon.judge engine relays.policySocket caller req).trace = [] ↔
        cfg.nscd.isSome = true ∧ ∃ uid, IsNscd passwd cfg uid ∧ caller.uid = some uid) ∧
    ∀ (config : DnsFrontendConfig) (upstream : Dns.Upstream) (proc : Option ProcFs)
      (raw : List UInt8) (peer : SocketAddr) (transport : Transport) (server : SocketAddr)
      (query : Dns.Query), Dns.Query.parse raw = .ok query →
      (questions ((Dns.Frontend.ofConfig config engine relays.dns).respond upstream proc raw peer
          transport server).trace = [] ↔
        (cfg.nscd.isSome = true ∨ cfg.nss = true) ∧ ∃ uid, IsNscd passwd cfg uid ∧
          ∃ shown, proc = some shown ∧ OwnsBestFit shown transport peer server uid) := by
  constructor
  · intro caller req
    rw [Daemon.questions_judge, ← ListenerRelays.policySocket_contains_iff h]
    cases relays.policySocket.contains caller <;> simp
  · intro config upstream proc raw peer transport server query hparse
    rw [Dns.Frontend.questions_respond_eq_nil_iff _ _ _ _ _ _ hparse, Dns.Frontend.ofConfig,
      ListenerRelays.dns_contains_iff h]
    simp only [Dns.Frontend.uid_callerOf_iff]

open Lookup in
theorem unjudged_iff_stacked :
    ∃ relays, ListenerRelays.forConfig testPasswd testStack = .ok relays ∧
      questions ((Dns.Frontend.ofConfig ⟨true, ⟨loopback, 53⟩, none, 5000, false⟩
        PolicyEngine.testEngine relays.dns).respond ⟨.stall, .connectStall⟩
        (some (procFsWith [connected])) (testLookup "Other.".toList
          [5, 111, 116, 104, 101, 114, 0]).message ⟨loopback, 5001⟩ .tcp ⟨loopback, 53⟩).trace =
        [] := by
  have huser : testPasswd.uidOf "nscd".toList = .ok (some connected.uid) := by decide
  have hstack : testStack.nscdUser = some "nscd".toList := rfl
  obtain ⟨relays, hrelays, -⟩ := ListenerRelays.exists_forConfig hstack huser
  obtain ⟨-, hdns⟩ := unjudged_iff testPasswd testStack relays hrelays PolicyEngine.testEngine
  refine ⟨relays, hrelays, (hdns _ _ _ _ _ _ _ _ rfl).mpr ⟨.inl rfl, connected.uid,
    ⟨_, hstack, huser⟩, _, rfl, ?_⟩⟩
  constructor
  · decide
  · decide

end Deezns
