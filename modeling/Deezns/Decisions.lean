import Deezns.Frontends

/-!
# What a front-end decides

Every front-end turns the verdict on a name into the same three decisions: deny
it, answer it from the daemon's own records, or hand it to the next resolver.
How a decision is carried out is the front-end's own.
-/
namespace Deezns

open Utf8 (Str)

inductive Decision where
  | deny
  | answer (addrs : List IpAddr)
  | forward
  deriving DecidableEq, Repr

def PolicyVerdict.decision (hostname : Str) : PolicyVerdict → Decision
  | .denied _ => .deny
  | .passThrough => .forward
  | .allowed =>
    if (upstreamResolve hostname).isEmpty then .forward else .answer (upstreamResolve hostname)

/-- The policy lets the lookup go on to the next resolver. -/
def LetsThrough (hostname : Str) (verdict : PolicyVerdict) : Prop :=
  verdict = .passThrough ∨ verdict = .allowed ∧ upstreamResolve hostname = []

theorem PolicyVerdict.decision_eq_forward_iff (hostname : Str) (verdict : PolicyVerdict) :
    verdict.decision hostname = .forward ↔ LetsThrough hostname verdict := by
  cases verdict with
  | denied reason => simp [decision, LetsThrough]
  | passThrough => simp [decision, LetsThrough]
  | allowed => simp [decision, LetsThrough]

theorem PolicyVerdict.decision_eq_deny_iff (hostname : Str) (verdict : PolicyVerdict) :
    verdict.decision hostname = .deny ↔ ∃ reason, verdict = .denied reason := by
  cases verdict with
  | denied reason => simp [decision]
  | passThrough => simp [decision]
  | allowed =>
    simp only [decision]
    split <;> simp

/-- Records are given out for one name only, and all of them. -/
theorem PolicyVerdict.decision_eq_answer_iff (hostname : Str) (verdict : PolicyVerdict)
    (addrs : List IpAddr) : verdict.decision hostname = .answer addrs ↔
      verdict = .allowed ∧ addrs ≠ [] ∧ upstreamResolve hostname = addrs := by
  cases verdict with
  | denied reason => simp [decision]
  | passThrough => simp [decision]
  | allowed =>
    by_cases h : upstreamResolve hostname = []
    · simp [decision, h]
    · simp only [decision, List.isEmpty_iff, if_neg h, Decision.answer.injEq, true_and,
        iff_and_self]
      rintro rfl
      exact h

/-- Apart from the names with records, the spelling plays no part. -/
theorem PolicyVerdict.decision_congr {hostname hostname' : Str} (verdict : PolicyVerdict)
    (h : verdict = .allowed → upstreamResolve hostname = upstreamResolve hostname') :
    verdict.decision hostname = verdict.decision hostname' := by
  cases verdict with
  | denied reason => rfl
  | passThrough => rfl
  | allowed => simp only [decision, h rfl]

end Deezns
