import Deezns.BlocklistMeaning
import Deezns.Policy

/-!
# Laws of the policy engine

The verdict is that of the first rule whose program is true, so rules that are
not true on a query, and rules behind the first that is, may be edited freely.
A name is judged in its canonical form, which keeps no trailing dot.
-/
namespace Deezns

open Utf8 (Str)
open Text

/-- An interpreter whose programs are functions of the context. -/
def Cel.direct : Cel where
  Program := Context → Except Unit (Value Unit)
  Other := Unit
  CompileError := Unit
  ExecutionError := Unit
  compile := fun expr => if expr = "true".toList then .ok (fun _ => .ok (.bool true)) else .error ()
  execute := fun program ctx => program ctx

/-- A canonical name is what is left without trailing dots, or the root. -/
theorem canonicalHostname_cases (s : Str) :
    (trimEndMatches (· == '.') (toAsciiLowercase s) = [] ∧ canonicalHostname s = ".".toList) ∨
    (trimEndMatches (· == '.') (toAsciiLowercase s) ≠ [] ∧
      canonicalHostname s = trimEndMatches (· == '.') (toAsciiLowercase s)) := by
  by_cases h : trimEndMatches (· == '.') (toAsciiLowercase s) = []
  · left
    simp [canonicalHostname, h]
  · right
    simp [canonicalHostname, h]

@[simp] theorem toAsciiLowercase_canonicalHostname (s : Str) :
    toAsciiLowercase (canonicalHostname s) = canonicalHostname s := by
  rcases canonicalHostname_cases s with ⟨_, h⟩ | ⟨_, h⟩ <;> rw [h]
  · rfl
  · obtain ⟨run, hrun, _⟩ := trimEndMatches_split (· == '.') (toAsciiLowercase s)
    have hlower := toAsciiLowercase_idem s
    rw [hrun, toAsciiLowercase_append] at hlower
    exact (List.append_inj hlower (by simp)).1

/-- Names share a canonical form if they are the same text up to case and the
dots at the end. -/
theorem canonicalHostname_eq_iff (s t : Str) :
    canonicalHostname s = canonicalHostname t ↔
      trimEndMatches (· == '.') (toAsciiLowercase s) =
        trimEndMatches (· == '.') (toAsciiLowercase t) := by
  have hroot : ∀ u : Str, trimEndMatches (· == '.') u ≠ ".".toList := by
    intro u hu
    have hlast := List.rdropWhile_last_not (· == '.') u (fun hnil => by
      rw [trimEndMatches, hnil] at hu
      cases hu)
    simp only [trimEndMatches] at hu
    simp [hu] at hlast
  rcases canonicalHostname_cases s with ⟨hs, h⟩ | ⟨hs, h⟩ <;>
    rcases canonicalHostname_cases t with ⟨ht, h'⟩ | ⟨ht, h'⟩ <;> rw [h, h']
  · rw [hs, ht, eq_self, eq_self]
  · rw [hs]
    exact ⟨fun heq => absurd heq.symm (hroot _), fun heq => absurd heq.symm ht⟩
  · rw [ht]
    exact ⟨fun heq => absurd heq (hroot _), fun heq => absurd heq hs⟩

theorem length_canonicalHostname_le (s : Str) (hs : s ≠ []) :
    (canonicalHostname s).length ≤ s.length := by
  have hpos := List.length_pos_iff.mpr hs
  rcases canonicalHostname_cases s with ⟨_, h⟩ | ⟨_, h⟩ <;> rw [h]
  · exact hpos
  · have hle := (List.rdropWhile_prefix (· == '.') (toAsciiLowercase s)).length_le
    rwa [length_toAsciiLowercase] at hle

/-- A name that carries no trailing dot; the root is its own canonical form. -/
def NoTrailingDot (s : Str) : Prop := s.getLast? ≠ some '.' ∨ s = ".".toList

instance (s : Str) : Decidable (NoTrailingDot s) := inferInstanceAs (Decidable (_ ∨ _))

theorem trimDots_eq_self_iff (s : Str) :
    trimEndMatches (· == '.') (toAsciiLowercase s) = toAsciiLowercase s ↔
      s.getLast? ≠ some '.' := by
  rw [trimEndMatches, List.rdropWhile_eq_self_iff]
  rcases List.eq_nil_or_concat s with rfl | ⟨init, c, rfl⟩
  · simp
  · simp [toAsciiLowercase]

theorem toAsciiLowercase_eq_canonicalHostname_iff (s : Str) (hs : s ≠ []) :
    toAsciiLowercase s = canonicalHostname s ↔ NoTrailingDot s := by
  have hself := trimDots_eq_self_iff s
  rcases canonicalHostname_cases s with ⟨htrim, h⟩ | ⟨htrim, h⟩
  · -- nothing but dots: only the root itself is already canonical
    have hdot : s.getLast? = some '.' := by
      by_contra hne
      rw [hself.mpr hne] at htrim
      exact hs ((toAsciiLowercase_eq_nil_iff s).mp htrim)
    have hroot : toAsciiLowercase s = ".".toList ↔ s = ".".toList := by
      cases s with
      | nil => simp
      | cons c rest => simp
    rw [h, hroot]
    simp [NoTrailingDot, hdot]
  · have hne : s ≠ ".".toList := by
      rintro rfl
      exact htrim (by decide)
    rw [h, eq_comm, hself]
    exact ⟨.inl, fun hor => hor.resolve_right hne⟩

namespace PolicyEngine

variable {cel : Cel}

/-- The rule's program is true under the context. -/
def Fires (ctx : Context) (rule : CompiledRule cel) : Prop :=
  cel.execute rule.program ctx = .ok (.bool true)

theorem firstMatch_cons_of_fires {ctx : Context} {rule : CompiledRule cel} (h : Fires ctx rule)
    (rules : List (CompiledRule cel)) : firstMatch ctx (rule :: rules) = some rule.apply := by
  rw [Fires] at h
  simp [firstMatch, CompiledRule.outcome, h]

theorem firstMatch_cons_of_not_fires {ctx : Context} {rule : CompiledRule cel}
    (h : ¬ Fires ctx rule) (rules : List (CompiledRule cel)) :
    firstMatch ctx (rule :: rules) = firstMatch ctx rules := by
  cases hout : rule.outcome ctx with
  | error e => simp [firstMatch, hout]
  | ok value =>
    cases value with
    | other v => simp [firstMatch, hout]
    | bool b =>
      cases b with
      | true => exact absurd hout h
      | false => simp [firstMatch, hout]

theorem firstMatch_append_of_not_fires {ctx : Context} (before after : List (CompiledRule cel))
    (h : ∀ rule ∈ before, ¬ Fires ctx rule) :
    firstMatch ctx (before ++ after) = firstMatch ctx after := by
  induction before with
  | nil => rfl
  | cons rule before ih =>
    rw [List.cons_append, firstMatch_cons_of_not_fires (h rule (by simp))]
    exact ih (fun r hr => h r (by simp [hr]))

theorem firstMatch_eq_none {ctx : Context} (rules : List (CompiledRule cel))
    (h : ∀ rule ∈ rules, ¬ Fires ctx rule) : firstMatch ctx rules = none := by
  have hall := firstMatch_append_of_not_fires rules [] h
  rwa [List.append_nil] at hall

/-- A common front of rules is judged alike before any two continuations. -/
theorem firstMatch_append_congr {ctx : Context} (before after after' : List (CompiledRule cel))
    (h : firstMatch ctx after = firstMatch ctx after') :
    firstMatch ctx (before ++ after) = firstMatch ctx (before ++ after') := by
  induction before with
  | nil => exact h
  | cons rule before ih =>
    by_cases hf : Fires ctx rule
    · rw [List.cons_append, List.cons_append, firstMatch_cons_of_fires hf,
        firstMatch_cons_of_fires hf]
    · rw [List.cons_append, List.cons_append, firstMatch_cons_of_not_fires hf,
        firstMatch_cons_of_not_fires hf, ih]

/-- Edits of a rule list that a query cannot notice: rules that are not true on
it come and go, and whatever stands behind a true rule is replaced. -/
inductive Edited (ctx : Context) : List (CompiledRule cel) → List (CompiledRule cel) → Prop where
  | refl (rules : List (CompiledRule cel)) : Edited ctx rules rules
  | trans {a b c : List (CompiledRule cel)} (h : Edited ctx a b) (h' : Edited ctx b c) :
      Edited ctx a c
  | insert (before after : List (CompiledRule cel)) (rule : CompiledRule cel)
      (h : ¬ Fires ctx rule) : Edited ctx (before ++ after) (before ++ rule :: after)
  | delete (before after : List (CompiledRule cel)) (rule : CompiledRule cel)
      (h : ¬ Fires ctx rule) : Edited ctx (before ++ rule :: after) (before ++ after)
  | behind (before after after' : List (CompiledRule cel)) (rule : CompiledRule cel)
      (h : Fires ctx rule) : Edited ctx (before ++ rule :: after) (before ++ rule :: after')

theorem Edited.firstMatch_eq {ctx : Context} {rules rules' : List (CompiledRule cel)}
    (h : Edited ctx rules rules') : firstMatch ctx rules' = firstMatch ctx rules := by
  induction h with
  | refl rules => rfl
  | trans h h' ih ih' => exact ih'.trans ih
  | insert before after rule h =>
    exact firstMatch_append_congr before _ _ (firstMatch_cons_of_not_fires h after)
  | delete before after rule h =>
    exact firstMatch_append_congr before _ _ (firstMatch_cons_of_not_fires h after).symm
  | behind before after after' rule h =>
    apply firstMatch_append_congr before
    rw [firstMatch_cons_of_fires h, firstMatch_cons_of_fires h]

theorem evaluateFor_eq (engine : PolicyEngine cel) (hostname : Str) (caller : Caller) :
    engine.evaluateFor hostname caller =
      (firstMatch (engine.context (canonicalHostname hostname) caller) engine.rules).getD
        (engine.default (canonicalHostname hostname)) := by
  simp only [evaluateFor]
  cases firstMatch (engine.context (canonicalHostname hostname) caller) engine.rules <;> rfl

/-- The verdict belongs to the canonical name. -/
theorem evaluateFor_congr (engine : PolicyEngine cel) {hostname hostname' : Str}
    (h : canonicalHostname hostname = canonicalHostname hostname') (caller : Caller) :
    engine.evaluateFor hostname caller = engine.evaluateFor hostname' caller := by
  simp only [evaluateFor, h]

/-- Neither the context nor the default depends on the rules. -/
theorem context_with_rules (engine : PolicyEngine cel) (rules' : List (CompiledRule cel))
    (hostnameLower : Str) (caller : Caller) :
    ({ engine with rules := rules' } : PolicyEngine cel).context hostnameLower caller =
      engine.context hostnameLower caller := rfl

theorem default_with_rules (engine : PolicyEngine cel) (rules' : List (CompiledRule cel))
    (hostnameLower : Str) :
    ({ engine with rules := rules' } : PolicyEngine cel).default hostnameLower =
      engine.default hostnameLower := rfl

/-- What the rules are shown of a query: its canonical name, the caller's numbers with
-1 for those that are unknown, and which lists cover the name. -/
structure Shows (engine : PolicyEngine cel) (name : Str) (caller : Caller) (ctx : Context) :
    Prop where
  hostname : ctx.hostname = canonicalHostname name
  uid : (∀ uid, caller.uid = some uid → ctx.uid = uid.toNat) ∧ (caller.uid = none → ctx.uid = -1)
  gid : (∀ gid, caller.gid = some gid → ctx.gid = gid.toNat) ∧ (caller.gid = none → ctx.gid = -1)
  pid : (∀ pid, caller.pid = some pid → ctx.pid = pid.toInt) ∧ (caller.pid = none → ctx.pid = -1)
  blockedBy : ∀ n, ctx.blockedBy n = true ↔ ∃ list, engine.blocklists.lookup n = some list ∧
    list.contains (canonicalHostname name) = true

theorem shows_context (engine : PolicyEngine cel) (hostname : Str) (caller : Caller) :
    Shows engine hostname caller (engine.context (canonicalHostname hostname) caller) where
  hostname := rfl
  uid := by
    cases h : caller.uid <;> simp [context, Caller.uidValue, h]
  gid := by
    cases h : caller.gid <;> simp [context, Caller.gidValue, h]
  pid := by
    cases h : caller.pid <;> simp [context, Caller.pidValue, h]
  blockedBy := by
    intro n
    cases h : engine.blocklists.lookup n <;> simp [context, h]

/-- The rule of least index that is true gives the verdict. -/
theorem evaluateFor_of_first (engine : PolicyEngine cel) (hostname : Str) (caller : Caller)
    (i : Nat) (hi : i < engine.rules.length)
    (hbefore : ∀ (j : Nat) (hj : j < i),
      ¬ Fires (engine.context (canonicalHostname hostname) caller) engine.rules[j])
    (hrule : Fires (engine.context (canonicalHostname hostname) caller) engine.rules[i]) :
    engine.evaluateFor hostname caller = engine.rules[i].apply := by
  have hsplit : engine.rules.take i ++ engine.rules[i] :: engine.rules.drop (i + 1) =
      engine.rules := by
    rw [List.getElem_cons_drop, List.take_append_drop]
  have hidle : ∀ r ∈ engine.rules.take i,
      ¬ Fires (engine.context (canonicalHostname hostname) caller) r := by
    intro r hr
    obtain ⟨j, hj, rfl⟩ := List.mem_take_iff_getElem.mp hr
    exact hbefore j (by omega)
  have hmatch := firstMatch_append_of_not_fires _ (engine.rules[i] :: engine.rules.drop (i + 1))
    hidle
  rw [hsplit, firstMatch_cons_of_fires hrule] at hmatch
  rw [evaluateFor_eq, hmatch, Option.getD_some]

/-- The verdict is that of the first true rule, or the default; unnoticed edits
of the rules keep it. -/
theorem evaluateFor_first_match (engine : PolicyEngine cel) (hostname : Str) (caller : Caller) :
    ∃ ctx, Shows engine hostname caller ctx ∧
      (∀ (i : Nat) (hi : i < engine.rules.length),
        (∀ (j : Nat) (hj : j < i), ¬ Fires ctx engine.rules[j]) → Fires ctx engine.rules[i] →
        engine.evaluateFor hostname caller =
          match engine.rules[i].verdict with
          | .allow => .allowed
          | .deny => .denied ("matched rule: ".toList ++ engine.rules[i].note)
          | .passthrough => .passThrough) ∧
      ((∀ r ∈ engine.rules, ¬ Fires ctx r) →
        engine.evaluateFor hostname caller =
          match engine.defaultVerdict with
          | .passthrough => .passThrough
          | .deny => .denied (canonicalHostname hostname ++ " denied by default policy".toList)) ∧
      ∀ rules', Edited ctx engine.rules rules' →
        ({ engine with rules := rules' } : PolicyEngine cel).evaluateFor hostname caller =
          engine.evaluateFor hostname caller := by
  refine ⟨_, shows_context engine hostname caller, ?_, ?_, ?_⟩
  · intro i hi hbefore hrule
    exact evaluateFor_of_first engine hostname caller i hi hbefore hrule
  · intro hnone
    rw [evaluateFor_eq, firstMatch_eq_none _ hnone, Option.getD_none]
    rfl
  · intro rules' hedit
    have hmatch := hedit.firstMatch_eq
    rw [evaluateFor_eq, evaluateFor_eq, context_with_rules, default_with_rules, hmatch]

/-- The rules of a small policy, with a program that fails and one that gives no
boolean in front. -/
def testEngine : PolicyEngine Cel.direct where
  rules := [
    ⟨"broken".toList, fun _ => .error (), .allow⟩,
    ⟨"not a boolean".toList, fun _ => .ok (.other ()), .allow⟩,
    ⟨"blocked".toList, fun ctx => .ok (.bool (ctx.hostname == "blocked.test".toList)), .deny⟩,
    ⟨"daemon record".toList, fun ctx => .ok (.bool (ctx.hostname == "example.local".toList)),
      .allow⟩]
  blocklists := ∅
  defaultVerdict := .passthrough

theorem evaluateFor_first_match_testEngine :
    testEngine.evaluateFor "Blocked.Test.".toList .unknown =
      .denied "matched rule: blocked".toList ∧
    testEngine.evaluateFor "other.test".toList .unknown = .passThrough ∧
    ({ testEngine with rules := testEngine.rules.tail } : PolicyEngine Cel.direct).evaluateFor
      "Blocked.Test.".toList .unknown = .denied "matched rule: blocked".toList := by
  obtain ⟨ctx, hshows, hfirst, -, hedited⟩ :=
    evaluateFor_first_match testEngine "Blocked.Test.".toList .unknown
  have hblocked : testEngine.evaluateFor "Blocked.Test.".toList .unknown =
      .denied "matched rule: blocked".toList := by
    refine hfirst 2 (by decide) ?_ ?_
    · intro j hj h
      match j, hj with
      | 0, _ => cases h
      | 1, _ => cases h
    · have hname : ctx.hostname = "blocked.test".toList := hshows.hostname.trans (by decide)
      simp [Fires, testEngine, Cel.direct, hname]
  refine ⟨hblocked, ?_, ?_⟩
  · obtain ⟨ctx', hshows', -, hdefault, -⟩ :=
      evaluateFor_first_match testEngine "other.test".toList .unknown
    have hname : ctx'.hostname = "other.test".toList := hshows'.hostname.trans (by decide)
    apply hdefault
    intro rule hrule h
    simp only [testEngine, List.mem_cons, List.not_mem_nil, or_false] at hrule
    rcases hrule with rfl | rfl | rfl | rfl <;> simp [Fires, Cel.direct, hname] at h
  · rw [hedited testEngine.rules.tail (.delete [] _ _ (by intro h; cases h)), hblocked]

end PolicyEngine

end Deezns
