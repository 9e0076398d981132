import Deezns.Policy
import Deezns.Traced

/-!
# What the front-ends share

The daemon's own records, the users whose lookups are not judged again, and
what a lookup does on the way to its reply: it asks the policy about a name,
and it sends bytes upstream.
-/
namespace Deezns

open Octets (Bytes)
open Utf8 (Str)

/-- Addresses the daemon knows without asking anyone. -/
def upstreamResolve (hostname : Str) : List IpAddr :=
  if hostname = "example.local".toList then [.v4 ⟨[10, 0, 0, 1], rfl⟩] else []

theorem upstreamResolve_ne_nil_iff (hostname : Str) :
    upstreamResolve hostname ≠ [] ↔ hostname = "example.local".toList := by
  unfold upstreamResolve
  split <;> simp_all

structure Relays where
  uids : Finset UInt32

/-- Whether the caller is one of the relays; an unidentified caller never is. -/
def Relays.contains (relays : Relays) (caller : Caller) : Bool :=
  caller.uid.any (fun uid => decide (uid ∈ relays.uids))

inductive Event where
  | asked (hostname : Str) (caller : Caller)
  | sent (bytes : Bytes)
  deriving DecidableEq, Repr

abbrev Effect := Traced Event

/-- What a trace sends upstream, in pieces as they were written. -/
def sentPieces (trace : List Event) : List Bytes :=
  trace.filterMap (fun
    | .asked _ _ => none
    | .sent bytes => some bytes)

@[simp] theorem sentPieces_nil : sentPieces [] = [] := rfl
@[simp] theorem sentPieces_asked (hostname : Str) (caller : Caller) (trace : List Event) :
    sentPieces (.asked hostname caller :: trace) = sentPieces trace := rfl
@[simp] theorem sentPieces_sent (bytes : Bytes) (trace : List Event) :
    sentPieces (.sent bytes :: trace) = bytes :: sentPieces trace := rfl
@[simp] theorem sentPieces_append (trace trace' : List Event) :
    sentPieces (trace ++ trace') = sentPieces trace ++ sentPieces trace' := by
  simp [sentPieces]

/-- What the policy is asked along a trace. -/
def questions (trace : List Event) : List (Str × Caller) :=
  trace.filterMap (fun
    | .asked hostname caller => some (hostname, caller)
    | .sent _ => none)

@[simp] theorem questions_nil : questions [] = [] := rfl
@[simp] theorem questions_asked (hostname : Str) (caller : Caller) (trace : List Event) :
    questions (.asked hostname caller :: trace) = (hostname, caller) :: questions trace := rfl
@[simp] theorem questions_sent (bytes : Bytes) (trace : List Event) :
    questions (.sent bytes :: trace) = questions trace := rfl
@[simp] theorem questions_append (trace trace' : List Event) :
    questions (trace ++ trace') = questions trace ++ questions trace' := by
  simp [questions]

theorem mem_questions_iff (hostname : Str) (caller : Caller) (trace : List Event) :
    (hostname, caller) ∈ questions trace ↔ .asked hostname caller ∈ trace := by
  induction trace with
  | nil => simp
  | cons event trace ih => cases event <;> simp [ih]

/-- Ask the policy, and be seen to. -/
def PolicyEngine.ask {cel : Cel} (engine : PolicyEngine cel) (hostname : Str) (caller : Caller) :
    Effect PolicyVerdict := do
  Traced.emit (.asked hostname caller)
  return engine.evaluateFor hostname caller

@[simp] theorem PolicyEngine.value_ask {cel : Cel} (engine : PolicyEngine cel) (hostname : Str)
    (caller : Caller) : (engine.ask hostname caller).value = engine.evaluateFor hostname caller :=
  rfl

@[simp] theorem PolicyEngine.trace_ask {cel : Cel} (engine : PolicyEngine cel) (hostname : Str)
    (caller : Caller) : (engine.ask hostname caller).trace = [.asked hostname caller] := rfl

end Deezns
