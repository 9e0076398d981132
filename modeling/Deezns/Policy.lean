import Deezns.Address
import Deezns.Assoc
import Deezns.Blocklist

/-!
# The policy engine

Rules are judged in order under one context for each query. The CEL
interpreter is a parameter: it compiles expressions to programs and executes a
program under a context, which is all it sees of the query and the caller.
-/
namespace Deezns

open Utf8 (Str)
open Text

/-- What a rule can read: its variables and the function `blocked_by`. -/
structure Context where
  hostname : Str
  uid : Int
  gid : Int
  pid : Int
  blockedBy : Str → Bool

/-- The result of a program, of which only the booleans matter here. -/
inductive Value (α : Type) where
  | bool (b : Bool)
  | other (v : α)
  deriving DecidableEq, Repr

/-- `cel_interpreter`: a compiler and an executor of rule expressions. -/
structure Cel where
  Program : Type
  Other : Type
  CompileError : Type
  ExecutionError : Type
  compile : Str → Except CompileError Program
  execute : Program → Context → Except ExecutionError (Value Other)

inductive DefaultVerdict where
  | passthrough | deny
  deriving DecidableEq, Repr

inductive RuleVerdict where
  | allow | deny | passthrough
  deriving DecidableEq, Repr

structure RuleConfig where
  note : Str
  expr : Str
  verdict : RuleVerdict
  deriving DecidableEq, Repr

structure BlocklistConfig where
  name : Str
  path : Str
  deriving DecidableEq, Repr

structure NscdFrontendConfig where
  enable : Bool
  listen : Str
  upstream : Str
  deriving DecidableEq, Repr

structure DnsFrontendConfig where
  enable : Bool
  listen : SocketAddr
  upstream : Option SocketAddr
  upstreamTimeoutMs : UInt64
  identifyProcesses : Bool
  deriving DecidableEq, Repr

structure NssFrontendConfig where
  enable : Bool
  deriving DecidableEq, Repr

structure PolicyConfig where
  defaultVerdict : DefaultVerdict
  blocklists : List BlocklistConfig
  rules : List RuleConfig
  nscdUser : Option Str
  nscdFrontend : Option NscdFrontendConfig
  dnsFrontend : Option DnsFrontendConfig
  nssFrontend : Option NssFrontendConfig
  deriving DecidableEq, Repr

namespace PolicyConfig

/-- The nscd front-end, if enabled. -/
def nscd (cfg : PolicyConfig) : Option NscdFrontendConfig := cfg.nscdFrontend.filter (·.enable)

/-- The DNS front-end, if enabled. -/
def dns (cfg : PolicyConfig) : Option DnsFrontendConfig := cfg.dnsFrontend.filter (·.enable)

/-- Whether the NSS module is in use. -/
def nss (cfg : PolicyConfig) : Bool := cfg.nssFrontend.any (·.enable)

end PolicyConfig

/-- The form a host name takes inside the policy: lower-case, without any
trailing dot. The DNS root is `"."`. -/
def canonicalHostname (name : Str) : Str :=
  let lower := toAsciiLowercase name
  let trimmed := trimEndMatches (· == '.') lower
  if trimmed.isEmpty then ".".toList else trimmed

/-- Who is asking, as far as the daemon can tell. -/
structure Caller where
  uid : Option UInt32
  gid : Option UInt32
  pid : Option Int32
  deriving DecidableEq, Repr

namespace Caller

def new (uid gid : UInt32) (pid : Int32) : Caller := ⟨some uid, some gid, some pid⟩

/-- A caller nothing is known about. -/
def unknown : Caller := ⟨none, none, none⟩

def uidValue (caller : Caller) : Int := caller.uid.elim (-1) (fun uid => uid.toNat)
def gidValue (caller : Caller) : Int := caller.gid.elim (-1) (fun gid => gid.toNat)
def pidValue (caller : Caller) : Int := caller.pid.elim (-1) Int32.toInt

end Caller

inductive PolicyVerdict where
  | denied (reason : Str)
  | passThrough
  | allowed
  deriving DecidableEq, Repr

/-- A single rule with its CEL program pre-compiled. -/
structure CompiledRule (cel : Cel) where
  note : Str
  program : cel.Program
  verdict : RuleVerdict

structure PolicyEngine (cel : Cel) where
  rules : List (CompiledRule cel)
  blocklists : Assoc.Map Str Blocklist
  defaultVerdict : DefaultVerdict

inductive ConfigError (cel : Cel) where
  | io (e : IoError)
  /-- `rule {index} ({note:?}): CEL compile error: {e}` -/
  | compile (index : Nat) (note : Str) (e : cel.CompileError)

variable {cel : Cel}

def CompiledRule.outcome (rule : CompiledRule cel) (ctx : Context) :
    Except cel.ExecutionError (Value cel.Other) := cel.execute rule.program ctx

def CompiledRule.apply (rule : CompiledRule cel) : PolicyVerdict :=
  match rule.verdict with
  | .allow => .allowed
  | .deny => .denied ("matched rule: ".toList ++ rule.note)
  | .passthrough => .passThrough

namespace PolicyEngine

/-- Load every configured list into a map keyed by its name. -/
def loadBlocklists (files : Files) :
    List BlocklistConfig → Assoc.Map Str Blocklist → Except IoError (Assoc.Map Str Blocklist)
  | [], blocklists => .ok blocklists
  | cfg :: rest, blocklists =>
    match Blocklist.load files cfg.path cfg.name with
    | .error e => .error e
    | .ok list => loadBlocklists files rest (blocklists.insert cfg.name list)

/-- Compile the rules, the first of which has the given index. -/
def compileRules : Nat → List RuleConfig → Except (ConfigError cel) (List (CompiledRule cel))
  | _, [] => .ok []
  | i, cfg :: rest =>
    match cel.compile cfg.expr with
    | .error e => .error (.compile i cfg.note e)
    | .ok program =>
      match compileRules (i + 1) rest with
      | .error e => .error e
      | .ok rules => .ok (⟨cfg.note, program, cfg.verdict⟩ :: rules)

def fromConfig (files : Files) (cfg : PolicyConfig) :
    Except (ConfigError cel) (PolicyEngine cel) :=
  match loadBlocklists files cfg.blocklists ∅ with
  | .error e => .error (.io e)
  | .ok blocklists =>
    match compileRules 0 cfg.rules with
    | .error e => .error e
    | .ok rules => .ok ⟨rules, blocklists, cfg.defaultVerdict⟩

/-- The context of a query: the lists are looked up once, for the canonical name. -/
def context (engine : PolicyEngine cel) (hostnameLower : Str) (caller : Caller) : Context :=
  let blResults := Assoc.mapValues (fun list => list.contains hostnameLower) engine.blocklists
  { hostname := hostnameLower
    uid := caller.uidValue
    gid := caller.gidValue
    pid := caller.pidValue
    blockedBy := fun name => (blResults.lookup name).getD false }

/-- The loop over the rules: anything but `true`, an error included, goes on. -/
def firstMatch (ctx : Context) : List (CompiledRule cel) → Option PolicyVerdict
  | [] => none
  | rule :: rules =>
    match rule.outcome ctx with
    | .ok (.bool true) => some rule.apply
    | .ok _ => firstMatch ctx rules
    | .error _ => firstMatch ctx rules

def default (engine : PolicyEngine cel) (hostnameLower : Str) : PolicyVerdict :=
  match engine.defaultVerdict with
  | .passthrough => .passThrough
  | .deny => .denied (hostnameLower ++ " denied by default policy".toList)

def evaluateFor (engine : PolicyEngine cel) (hostname : Str) (caller : Caller) : PolicyVerdict :=
  let hostnameLower := canonicalHostname hostname
  match firstMatch (engine.context hostnameLower caller) engine.rules with
  | some verdict => verdict
  | none => engine.default hostnameLower

/-- `evaluate`, for a fully identified caller. -/
def evaluate (engine : PolicyEngine cel) (hostname : Str) (uid gid : UInt32) (pid : Int32) :
    PolicyVerdict := engine.evaluateFor hostname (Caller.new uid gid pid)

end PolicyEngine

end Deezns
