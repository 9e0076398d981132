import Deezns.PolicyLaws

/-!
# What rules see

A rule reads nothing of a query but its context. So to every policy two queries are the
same whose names have one canonical form and of whose callers the same is known, and
any two others are told apart by a policy of one rule, if CEL can say of a variable that
it is a constant.
-/
namespace Deezns

open Utf8 (Str)

theorem elim_toNat_inj {a b : Option UInt32} :
    a.elim (-1 : Int) (fun n => (n.toNat : Int)) = b.elim (-1) (fun n => (n.toNat : Int)) ↔
      a = b := by
  cases a with
  | none =>
    cases b with
    | none => simp
    | some n => simp only [Option.elim_none, Option.elim_some, reduceCtorEq]
  | some m =>
    cases b with
    | none => simp only [Option.elim_none, Option.elim_some, reduceCtorEq]
    | some n =>
      simp only [Option.elim_some, Option.some.injEq]
      rw [Int.ofNat_inj, UInt32.toNat_inj]

namespace Caller

theorem uidValue_inj {caller caller' : Caller} :
    caller.uidValue = caller'.uidValue ↔ caller.uid = caller'.uid := elim_toNat_inj

theorem gidValue_inj {caller caller' : Caller} :
    caller.gidValue = caller'.gidValue ↔ caller.gid = caller'.gid := elim_toNat_inj

theorem pidValue_eq (caller : Caller) : caller.pidValue = (caller.pid.getD (-1)).toInt := by
  unfold pidValue
  cases caller.pid <;> rfl

theorem pidValue_inj {caller caller' : Caller} :
    caller.pidValue = caller'.pidValue ↔ caller.pid.getD (-1) = caller'.pid.getD (-1) := by
  rw [pidValue_eq, pidValue_eq, Int32.toInt_inj]

end Caller

/-- Two queries look the same to rules. -/
structure SameView (hostname hostname' : Str) (caller caller' : Caller) : Prop where
  name : canonicalHostname hostname = canonicalHostname hostname'
  uid : caller.uid = caller'.uid
  gid : caller.gid = caller'.gid
  /-- Other than a uid or a gid, a pid of −1 looks like one that is not known. -/
  pid : caller.pid.getD (-1) = caller'.pid.getD (-1)

variable {hostname hostname' : Str} {caller caller' : Caller}

/-- A context shows exactly that. -/
theorem sameView_iff : SameView hostname hostname' caller caller' ↔
    canonicalHostname hostname = canonicalHostname hostname' ∧
      caller.uidValue = caller'.uidValue ∧ caller.gidValue = caller'.gidValue ∧
      caller.pidValue = caller'.pidValue := by
  rw [Caller.uidValue_inj, Caller.gidValue_inj, Caller.pidValue_inj]
  exact ⟨fun h => ⟨h.name, h.uid, h.gid, h.pid⟩, fun h => ⟨h.1, h.2.1, h.2.2.1, h.2.2.2⟩⟩

namespace PolicyEngine

theorem evaluateFor_of_sameView (h : SameView hostname hostname' caller caller') {cel : Cel}
    (engine : PolicyEngine cel) :
    engine.evaluateFor hostname caller = engine.evaluateFor hostname' caller' := by
  obtain ⟨hname, huid, hgid, hpid⟩ := sameView_iff.mp h
  have hcontext : engine.context (canonicalHostname hostname') caller =
      engine.context (canonicalHostname hostname') caller' := by
    simp only [context, huid, hgid, hpid]
  rw [evaluateFor_congr engine hname, evaluateFor_eq, evaluateFor_eq, hcontext]

end PolicyEngine

/-- There is an expression that compiles, and is true exactly where a condition holds. -/
def Cel.Expresses (cel : Cel) (condition : Context → Prop) : Prop :=
  ∃ expr program, cel.compile expr = .ok program ∧
    ∀ ctx, cel.execute program ctx = .ok (.bool true) ↔ condition ctx

/-- Every variable can be compared with what it is for the query. -/
structure Cel.Compares (cel : Cel) (hostname : Str) (caller : Caller) : Prop where
  hostname : cel.Expresses (fun ctx => ctx.hostname = canonicalHostname hostname)
  uid : cel.Expresses (fun ctx => ctx.uid = caller.uidValue)
  gid : cel.Expresses (fun ctx => ctx.gid = caller.gidValue)
  pid : cel.Expresses (fun ctx => ctx.pid = caller.pidValue)

/-- One rule, which denies, and no other opinion. -/
def denying (expr : Str) : PolicyConfig where
  defaultVerdict := .passthrough
  blocklists := []
  rules := [⟨[], expr, .deny⟩]
  nscdUser := none
  nscdFrontend := none
  dnsFrontend := none
  nssFrontend := none

/-- What can be expressed can be denied. -/
theorem exists_denying {cel : Cel} {condition : Context → Prop} (h : cel.Expresses condition)
    (files : Files) : ∃ cfg, ∃ engine : PolicyEngine cel,
      PolicyEngine.fromConfig files cfg = .ok engine ∧ ∀ hostname caller,
        (condition (engine.context (canonicalHostname hostname) caller) →
          engine.evaluateFor hostname caller = .denied "matched rule: ".toList) ∧
        (¬ condition (engine.context (canonicalHostname hostname) caller) →
          engine.evaluateFor hostname caller = .passThrough) := by
  obtain ⟨expr, program, hcompile, htrue⟩ := h
  have hload : @PolicyEngine.fromConfig cel files (denying expr) =
      .ok ⟨[⟨[], program, .deny⟩], ∅, .passthrough⟩ := by
    simp [PolicyEngine.fromConfig, PolicyEngine.loadBlocklists, PolicyEngine.compileRules, denying,
      hcompile]
  refine ⟨denying expr, _, hload, fun hostname caller => ?_⟩
  rw [PolicyEngine.evaluateFor_eq]
  constructor
  · intro hcondition
    have hfires : PolicyEngine.Fires _ ⟨[], program, .deny⟩ := (htrue _).mpr hcondition
    exact congrArg (Option.getD · _) (PolicyEngine.firstMatch_cons_of_fires hfires [])
  · intro hnot
    have hfires : ¬ PolicyEngine.Fires _ ⟨[], program, .deny⟩ := mt (htrue _).mp hnot
    exact congrArg (Option.getD · _) (PolicyEngine.firstMatch_cons_of_not_fires hfires [])

/-- Queries that look the same are the same to every policy, and of two that do not, one
is denied and the other let pass by a policy that a configuration gives. -/
theorem policies_tell_apart_iff (hostname hostname' : Str) (caller caller' : Caller) :
    (SameView hostname hostname' caller caller' → ∀ (cel : Cel) (engine : PolicyEngine cel),
      engine.evaluateFor hostname caller = engine.evaluateFor hostname' caller') ∧
    ∀ (cel : Cel) (files : Files), cel.Compares hostname caller →
      (¬ SameView hostname hostname' caller caller' ↔
        ∃ cfg, ∃ (engine : PolicyEngine cel) (reason : Str),
          PolicyEngine.fromConfig files cfg = .ok engine ∧
          engine.evaluateFor hostname caller = .denied reason ∧
          engine.evaluateFor hostname' caller' = .passThrough) := by
  refine ⟨fun h cel engine => PolicyEngine.evaluateFor_of_sameView h engine,
    fun cel files hcel => ⟨fun hview => ?_, ?_⟩⟩
  · -- a variable that differs is one to compare with
    have hdenies : ∀ condition : Context → Prop, cel.Expresses condition →
        (∀ engine : PolicyEngine cel,
          condition (engine.context (canonicalHostname hostname) caller) ∧
          ¬ condition (engine.context (canonicalHostname hostname') caller')) →
        ∃ cfg, ∃ (engine : PolicyEngine cel) (reason : Str),
          PolicyEngine.fromConfig files cfg = .ok engine ∧
          engine.evaluateFor hostname caller = .denied reason ∧
          engine.evaluateFor hostname' caller' = .passThrough := by
      intro condition hexpresses hdiffers
      obtain ⟨cfg, engine, hload, hverdict⟩ := exists_denying hexpresses files
      exact ⟨cfg, engine, _, hload, (hverdict hostname caller).1 (hdiffers engine).1,
        (hverdict hostname' caller').2 (hdiffers engine).2⟩
    by_contra hnone
    refine hview (sameView_iff.mpr ⟨?_, ?_, ?_, ?_⟩)
    · by_contra hne
      exact hnone (hdenies _ hcel.hostname fun engine => ⟨rfl, Ne.symm hne⟩)
    · by_contra hne
      exact hnone (hdenies _ hcel.uid fun engine => ⟨rfl, Ne.symm hne⟩)
    · by_contra hne
      exact hnone (hdenies _ hcel.gid fun engine => ⟨rfl, Ne.symm hne⟩)
    · by_contra hne
      exact hnone (hdenies _ hcel.pid fun engine => ⟨rfl, Ne.symm hne⟩)
  · rintro ⟨cfg, engine, reason, -, hreason, hpass⟩ h
    rw [PolicyEngine.evaluateFor_of_sameView h, hpass] at hreason
    cases hreason

/-- So much of CEL as a few rules need. -/
def Cel.comparisons : Cel where
  Program := Context → Bool
  Other := Unit
  CompileError := Unit
  ExecutionError := Unit
  compile expr :=
    if expr = "hostname == \"ads.test\"".toList then .ok (·.hostname == "ads.test".toList)
    else if expr = "uid == 1000".toList then .ok (·.uid == 1000)
    else if expr = "gid == 100".toList then .ok (·.gid == 100)
    else if expr = "pid == -1".toList then .ok (·.pid == -1)
    else .error ()
  execute program ctx := .ok (.bool (program ctx))

/-- The case of a name makes no difference, another user does. -/
theorem policies_tell_apart_users :
    (∀ (cel : Cel) (engine : PolicyEngine cel),
      engine.evaluateFor "Ads.Test.".toList ⟨some 1000, some 100, none⟩ =
        engine.evaluateFor "ads.test".toList ⟨some 1000, some 100, some (-1)⟩) ∧
    ∃ cfg, ∃ (engine : PolicyEngine Cel.comparisons) (reason : Str),
      PolicyEngine.fromConfig (fun _ => .error (.os 2)) cfg = .ok engine ∧
      engine.evaluateFor "Ads.Test.".toList ⟨some 1000, some 100, none⟩ = .denied reason ∧
      engine.evaluateFor "Ads.Test.".toList ⟨some 1001, some 100, none⟩ = .passThrough := by
  have hname : canonicalHostname "Ads.Test.".toList = "ads.test".toList := by decide
  have hcompares : Cel.comparisons.Compares "Ads.Test.".toList ⟨some 1000, some 100, none⟩ :=
    ⟨⟨"hostname == \"ads.test\"".toList, _, rfl, fun ctx => by
      rw [hname]
      simp [Cel.comparisons]⟩,
      ⟨"uid == 1000".toList, _, rfl, fun ctx => by simp [Cel.comparisons, Caller.uidValue]⟩,
      ⟨"gid == 100".toList, _, rfl, fun ctx => by simp [Cel.comparisons, Caller.gidValue]⟩,
      ⟨"pid == -1".toList, _, rfl, fun ctx => by simp [Cel.comparisons, Caller.pidValue]⟩⟩
  constructor
  · exact (policies_tell_apart_iff _ _ _ _).1 ⟨by decide, rfl, rfl, rfl⟩
  · refine ((policies_tell_apart_iff _ _ _ _).2 _ (fun _ => .error (.os 2)) hcompares).mp ?_
    intro hview
    exact absurd hview.uid (by decide)

end Deezns
