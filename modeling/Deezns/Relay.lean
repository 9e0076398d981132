import Deezns.Frontends
import Mathlib.Data.Nat.Find

/-!
# Relays

Where front-ends are stacked, nscd's own lookups come from lookups that another
front-end has judged. Its user is a relay on the listeners behind an enabled
front-end: on the policy socket behind the nscd front-end, on the DNS front-end
behind that or the NSS module.
-/
namespace Deezns

open Octets (Bytes)
open Utf8 (Str encode)

inductive PasswdResult where
  | noEntry
  | entry (uid : UInt32)
  | error (errno : Int32)
  deriving DecidableEq, Repr

def erange : Int32 := 34

/-- The C library, as far as users are looked up in it. -/
structure Passwd where
  /-- `getpwnam_r` on a name, with a buffer of so many bytes. -/
  getpwnamR : Bytes → Nat → PasswdResult
  /-- A buffer that is doubled again and again becomes large enough. -/
  fits : ∀ name, ∃ k, getpwnamR name (1024 * 2 ^ k) ≠ .error erange
  /-- A string as `{:?}` shows it. -/
  debug : Str → String

/-- The uid of a user, or none if there is no such user. The buffer is doubled
until it is large enough. -/
def Passwd.uidOf (passwd : Passwd) (user : Str) : Except IoError (Option UInt32) :=
  let name := encode user
  if 0 ∈ name then
    .error (.new .invalidInput
      s!"nul byte found in provided data at position: {name.idxOf 0}")
  else
    match passwd.getpwnamR name (1024 * 2 ^ Nat.find (passwd.fits name)) with
    | .noEntry => .ok none
    | .entry uid => .ok (some uid)
    | .error errno => .error (.os errno)

namespace Relays

def noSuchUser (passwd : Passwd) (user : Str) : IoError :=
  .new .notFound s!"relay user {passwd.debug user} does not exist"

/-- User names to uids; the first that does not resolve is an error. -/
def resolve (passwd : Passwd) (users : List Str) : Except IoError Relays := do
  let uids ← users.mapM (fun user => do
    match ← passwd.uidOf user with
    | some uid => return uid
    | none => throw (noSuchUser passwd user))
  return ⟨uids.toFinset⟩

theorem contains_empty (caller : Caller) : contains ⟨∅⟩ caller = false := by
  cases h : caller.uid <;> simp [contains, h]

theorem contains_singleton_iff (n : UInt32) (caller : Caller) :
    contains ⟨{n}⟩ caller = true ↔ caller.uid = some n := by
  cases h : caller.uid <;> simp [contains, h]

theorem resolve_singleton {passwd : Passwd} {user : Str} {n : UInt32}
    (h : passwd.uidOf user = .ok (some n)) : resolve passwd [user] = .ok ⟨{n}⟩ := by
  simp only [resolve, List.mapM_cons, List.mapM_nil, h]
  rfl

end Relays

/-- The relays of the listeners that can sit behind another front-end. -/
structure ListenerRelays where
  policySocket : Relays
  dns : Relays

/-- Whether nscd is a relay on the policy socket and on the DNS front-end. -/
def relaying (cfg : PolicyConfig) : Bool × Bool :=
  let nscd := cfg.nscd.isSome
  (nscd, nscd || cfg.nss)

theorem relaying_dns_iff (cfg : PolicyConfig) :
    (relaying cfg).2 = true ↔ cfg.nscd.isSome = true ∨ cfg.nss = true := by
  simp [relaying]

namespace ListenerRelays

/-- The one relay there may be; its user is not looked up for nothing. -/
def nscd (passwd : Passwd) (cfg : PolicyConfig) : Except IoError Relays :=
  let (policySocket, dns) := relaying cfg
  match cfg.nscdUser with
  | some user => if policySocket || dns then Relays.resolve passwd [user] else .ok ⟨∅⟩
  | none => .ok ⟨∅⟩

def onlyIf (nscd : Relays) (on : Bool) : Relays := if on then nscd else ⟨∅⟩

def forConfig (passwd : Passwd) (cfg : PolicyConfig) : Except IoError ListenerRelays := do
  let (policySocket, dns) := relaying cfg
  let nscd ← nscd passwd cfg
  return ⟨onlyIf nscd policySocket, onlyIf nscd dns⟩

theorem contains_onlyIf (nscd : Relays) (on : Bool) (caller : Caller) :
    (onlyIf nscd on).contains caller = (on && nscd.contains caller) := by
  cases on with
  | false => exact Relays.contains_empty caller
  | true => rfl

theorem forConfig_eq_ok_iff (passwd : Passwd) (cfg : PolicyConfig) (relays : ListenerRelays) :
    forConfig passwd cfg = .ok relays ↔ ∃ users, nscd passwd cfg = .ok users ∧
      relays = ⟨onlyIf users (relaying cfg).1, onlyIf users (relaying cfg).2⟩ := by
  unfold forConfig
  cases h : nscd passwd cfg with
  | error e => simp [bind, Except.bind]
  | ok users => simp [bind, Except.bind, pure, Except.pure, eq_comm]

/-- Where somebody is relayed, an enabled front-end stands before the listener. -/
theorem relaying_of_contains {passwd : Passwd} {cfg : PolicyConfig} {relays : ListenerRelays}
    (h : forConfig passwd cfg = .ok relays) (caller : Caller) :
    (relays.policySocket.contains caller = true → (relaying cfg).1 = true) ∧
    (relays.dns.contains caller = true → (relaying cfg).2 = true) := by
  obtain ⟨users, -, rfl⟩ := (forConfig_eq_ok_iff _ _ _).mp h
  simp only [contains_onlyIf, Bool.and_eq_true]
  exact ⟨And.left, And.left⟩

/-- A user that resolves is the one relay, where there are relays. -/
theorem exists_forConfig {passwd : Passwd} {cfg : PolicyConfig} {user : Str} {n : UInt32}
    (huser : cfg.nscdUser = some user) (hn : passwd.uidOf user = .ok (some n)) :
    ∃ relays, forConfig passwd cfg = .ok relays ∧ ∀ caller, caller.uid = some n →
      relays.policySocket.contains caller = (relaying cfg).1 ∧
      relays.dns.contains caller = (relaying cfg).2 := by
  have hnscd : nscd passwd cfg = if (relaying cfg).1 || (relaying cfg).2 then .ok ⟨{n}⟩
      else .ok ⟨∅⟩ := by
    simp only [nscd, huser, Relays.resolve_singleton hn]
  cases hon : (relaying cfg).1 || (relaying cfg).2 with
  | false =>
    rw [hon] at hnscd
    rw [Bool.or_eq_false_iff] at hon
    refine ⟨_, (forConfig_eq_ok_iff _ _ _).mpr ⟨_, hnscd, rfl⟩, fun caller _ => ?_⟩
    simp [contains_onlyIf, hon.1, hon.2]
  | true =>
    rw [hon] at hnscd
    refine ⟨_, (forConfig_eq_ok_iff _ _ _).mpr ⟨_, hnscd, rfl⟩, fun caller huid => ?_⟩
    have hcontains := (Relays.contains_singleton_iff n caller).mpr huid
    simp [contains_onlyIf, hcontains]

end ListenerRelays

end Deezns
