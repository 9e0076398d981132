import Deezns.Traced

/-!
# Name service switch

A lookup goes through sources in their order. Each answers with a status, and its
reactions say whether the lookup returns with that or continues with the next.
-/
namespace Nsswitch

inductive Status where
  | success | notFound | unavail | tryAgain
  deriving DecidableEq, Repr

inductive Answer (α : Type) where
  | success (value : α)
  | notFound
  | unavail
  | tryAgain
  deriving DecidableEq, Repr

def Answer.status {α : Type} : Answer α → Status
  | .success _ => .success
  | .notFound => .notFound
  | .unavail => .unavail
  | .tryAgain => .tryAgain

/-- An action in brackets, for a status or for all but it. -/
structure Reaction where
  negated : Bool
  status : Status
  returns : Bool
  deriving DecidableEq, Repr

def Reaction.concerns (reaction : Reaction) (status : Status) : Bool :=
  (status == reaction.status) != reaction.negated

/-- Success returns and all else continues, but for the reactions, of which the
last one counts. -/
def returns (reactions : List Reaction) (status : Status) : Bool :=
  reactions.foldl (fun table reaction =>
    if reaction.concerns status then reaction.returns else table) (status == .success)

@[simp] theorem returns_nil (status : Status) : returns [] status = (status == .success) := rfl

/-- A source with its reactions, for one question. It may never answer. -/
structure Source (ε α : Type) where
  lookup : Traced ε (Option (Answer α))
  reactions : List Reaction

variable {ε α : Type}

/-- The lookup continues behind the source. -/
def Source.passes (source : Source ε α) : Bool :=
  source.lookup.value.any (fun answer => !returns source.reactions answer.status)

/-- What comes of the sources, where the last answer before them is known. -/
def lookupFrom (last : Answer α) : List (Source ε α) → Traced ε (Option (Answer α))
  | [] => return some last
  | source :: rest => do
    match ← source.lookup with
    | none => return none
    | some answer =>
      if returns source.reactions answer.status then return some answer
      else lookupFrom answer rest

def lookup (sources : List (Source ε α)) : Traced ε (Option (Answer α)) :=
  lookupFrom .unavail sources

@[simp] theorem lookupFrom_nil (last : Answer α) :
    lookupFrom last ([] : List (Source ε α)) = pure (some last) := rfl

theorem passes_eq_true_iff {source : Source ε α} : source.passes = true ↔
    ∃ answer, source.lookup.value = some answer ∧
      returns source.reactions answer.status = false := by
  simp [Source.passes, Option.any_eq_true]

theorem lookupFrom_cons (last : Answer α) (source : Source ε α) (rest : List (Source ε α)) :
    lookupFrom last (source :: rest) =
      match source.lookup.value with
      | none => source.lookup
      | some answer =>
        if returns source.reactions answer.status then source.lookup
        else ⟨(lookupFrom answer rest).value,
          source.lookup.trace ++ (lookupFrom answer rest).trace⟩ := by
  obtain ⟨⟨value, trace⟩, reactions⟩ := source
  cases value with
  | none => exact Traced.ext rfl (List.append_nil _)
  | some answer =>
    cases h : returns reactions answer.status with
    | true =>
      apply Traced.ext
      · simp [lookupFrom, h]
      · simp [lookupFrom, h]
    | false =>
      apply Traced.ext
      · simp [lookupFrom, h]
      · simp [lookupFrom, h]

theorem lookupFrom_cons_of_not_passes {source : Source ε α} (h : source.passes = false)
    (last : Answer α) (rest : List (Source ε α)) :
    lookupFrom last (source :: rest) = source.lookup := by
  rw [lookupFrom_cons]
  unfold Source.passes at h
  cases hvalue : source.lookup.value with
  | none => rfl
  | some answer =>
    have hreturns : returns source.reactions answer.status = true := by simpa [hvalue] using h
    exact if_pos hreturns

theorem lookupFrom_cons_of_continues {source : Source ε α} {answer : Answer α}
    (hvalue : source.lookup.value = some answer)
    (h : returns source.reactions answer.status = false) (last : Answer α)
    (rest : List (Source ε α)) :
    lookupFrom last (source :: rest) =
      ⟨(lookupFrom answer rest).value, source.lookup.trace ++ (lookupFrom answer rest).trace⟩ := by
  simp only [lookupFrom_cons, hvalue, h, Bool.false_eq_true, if_false]

/-- The last answer before them counts only where there are no sources. -/
theorem lookupFrom_of_ne_nil {sources : List (Source ε α)} (h : sources ≠ [])
    (last : Answer α) : lookupFrom last sources = lookup sources := by
  cases sources with
  | nil => exact absurd rfl h
  | cons source rest => rfl

/-- The lookup gets behind the sources. -/
def passed (sources : List (Source ε α)) : Bool := sources.all Source.passes

@[simp] theorem passed_nil : passed ([] : List (Source ε α)) = true := rfl

@[simp] theorem passed_cons (source : Source ε α) (rest : List (Source ε α)) :
    passed (source :: rest) = (source.passes && passed rest) := rfl

/-- What is done on the way through sources that are all passed. -/
def asked (sources : List (Source ε α)) : List ε := sources.flatMap (·.lookup.trace)

@[simp] theorem asked_nil : asked ([] : List (Source ε α)) = [] := rfl

@[simp] theorem asked_cons (source : Source ε α) (rest : List (Source ε α)) :
    asked (source :: rest) = source.lookup.trace ++ asked rest := rfl

/-- Whatever is done is done by one of the sources. -/
theorem exists_source_of_mem {sources : List (Source ε α)} {last : Answer α} {event : ε}
    (h : event ∈ (lookupFrom last sources).trace) :
    ∃ source ∈ sources, event ∈ source.lookup.trace := by
  induction sources generalizing last with
  | nil => cases h
  | cons source rest ih =>
    by_cases hmem : event ∈ source.lookup.trace
    · exact ⟨source, List.mem_cons_self, hmem⟩
    · rw [lookupFrom_cons] at h
      cases hvalue : source.lookup.value with
      | none =>
        rw [hvalue] at h
        exact absurd h hmem
      | some answer =>
        simp only [hvalue] at h
        split at h
        · exact absurd h hmem
        · obtain ⟨source', hsource', hevent⟩ := ih ((List.mem_append.mp h).resolve_left hmem)
          exact ⟨source', List.mem_cons_of_mem _ hsource', hevent⟩

theorem lookupFrom_append_of_not_passed {before : List (Source ε α)} (h : passed before = false)
    (after : List (Source ε α)) (last : Answer α) :
    lookupFrom last (before ++ after) = lookupFrom last before := by
  induction before generalizing last with
  | nil => cases h
  | cons source rest ih =>
    rw [List.cons_append]
    cases hpasses : source.passes with
    | false => rw [lookupFrom_cons_of_not_passes hpasses, lookupFrom_cons_of_not_passes hpasses]
    | true =>
      have hrest : passed rest = false := by simpa [hpasses] using h
      obtain ⟨answer, hvalue, hreturns⟩ := passes_eq_true_iff.mp hpasses
      rw [lookupFrom_cons_of_continues hvalue hreturns,
        lookupFrom_cons_of_continues hvalue hreturns, ih hrest]

theorem lookupFrom_append_of_passed {before : List (Source ε α)} (h : passed before = true)
    (after : List (Source ε α)) (last : Answer α) :
    ∃ last', lookupFrom last (before ++ after) =
      ⟨(lookupFrom last' after).value, asked before ++ (lookupFrom last' after).trace⟩ := by
  induction before generalizing last with
  | nil => exact ⟨last, rfl⟩
  | cons source rest ih =>
    rw [passed_cons, Bool.and_eq_true] at h
    obtain ⟨answer, hvalue, hreturns⟩ := passes_eq_true_iff.mp h.1
    obtain ⟨last', hrest⟩ := ih h.2 answer
    refine ⟨last', ?_⟩
    rw [List.cons_append, lookupFrom_cons_of_continues hvalue hreturns, hrest, asked_cons,
      List.append_assoc]

/-- Behind sources that are passed, it goes on as if they were not there. -/
theorem lookup_append_of_passed {before after : List (Source ε α)} (h : passed before = true)
    (hne : after ≠ []) :
    lookup (before ++ after) = ⟨(lookup after).value, asked before ++ (lookup after).trace⟩ := by
  obtain ⟨last', heq⟩ := lookupFrom_append_of_passed h after .unavail
  rw [lookup, heq, lookupFrom_of_ne_nil hne]

theorem lookup_append_of_not_passed {before : List (Source ε α)} (h : passed before = false)
    (after : List (Source ε α)) : lookup (before ++ after) = lookup before :=
  lookupFrom_append_of_not_passed h after .unavail

end Nsswitch
