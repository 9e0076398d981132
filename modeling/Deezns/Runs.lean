import Mathlib.Logic.Function.Basic

/-!
# Runs of systems

A system takes a step on an event that can happen. What holds at first and is
kept by every step holds in every state that is reached. Systems that share
nothing are interleaved: each takes its own steps, in any order.
-/

structure System (σ ε : Type) where
  init : σ
  step : σ → ε → Option σ

namespace System

section
variable {σ ε : Type} {m : System σ ε}

/-- The state after the events, if each can happen in its turn. -/
def run (m : System σ ε) : σ → List ε → Option σ
  | s, [] => some s
  | s, e :: events => (m.step s e).bind (fun s' => m.run s' events)

def Reachable (m : System σ ε) (s : σ) : Prop := ∃ events, m.run m.init events = some s

@[simp] theorem run_nil (s : σ) : m.run s [] = some s := rfl

theorem run_cons_eq_some_iff (s t : σ) (e : ε) (events : List ε) :
    m.run s (e :: events) = some t ↔ ∃ s', m.step s e = some s' ∧ m.run s' events = some t :=
  Option.bind_eq_some_iff

/-- Runs are put together. -/
theorem run_append_of_run {s t u : σ} {events events' : List ε} (h : m.run s events = some t)
    (h' : m.run t events' = some u) : m.run s (events ++ events') = some u := by
  induction events generalizing s with
  | nil =>
    cases h
    exact h'
  | cons e events ih =>
    obtain ⟨s', hfirst, hrest⟩ := (run_cons_eq_some_iff s t e events).mp h
    exact (run_cons_eq_some_iff s u e (events ++ events')).mpr ⟨s', hfirst, ih hrest⟩

/-- What steps on certain events keep is kept by a run of these. -/
theorem run_invariant_of_forall {P : σ → Prop} {F : ε → Prop}
    (hstep : ∀ s e s', F e → m.step s e = some s' → P s → P s') {s t : σ} {events : List ε}
    (h : m.run s events = some t) (hevents : ∀ e ∈ events, F e) (hs : P s) : P t := by
  induction events generalizing s with
  | nil => exact Option.some.inj h ▸ hs
  | cons e events ih =>
    obtain ⟨s', hfirst, hrest⟩ := (run_cons_eq_some_iff s t e events).mp h
    rw [List.forall_mem_cons] at hevents
    exact ih hrest hevents.2 (hstep s e s' hevents.1 hfirst hs)

/-- What every step keeps is kept by a run. -/
theorem run_invariant {P : σ → Prop} (hstep : ∀ s e s', m.step s e = some s' → P s → P s')
    {s t : σ} {events : List ε} (h : m.run s events = some t) (hs : P s) : P t :=
  run_invariant_of_forall (F := fun _ => True) (fun s e s' _ => hstep s e s') h
    (fun _ _ => trivial) hs

theorem Reachable.invariant {P : σ → Prop} (hinit : P m.init)
    (hstep : ∀ s e s', m.step s e = some s' → P s → P s') {s : σ} (h : m.Reachable s) : P s := by
  obtain ⟨events, hrun⟩ := h
  exact run_invariant hstep hrun hinit

/-- What only certain events bring about, and nothing takes back, holds after a
run exactly if one of them is in it. -/
theorem run_iff_of_step_iff {P : σ → Prop} {F : ε → Prop}
    (hstep : ∀ s e s', m.step s e = some s' → (P s' ↔ P s ∨ F e))
    {s t : σ} {events : List ε} (h : m.run s events = some t) :
    P t ↔ P s ∨ ∃ e ∈ events, F e := by
  induction events generalizing s with
  | nil =>
    cases h
    simp
  | cons e events ih =>
    obtain ⟨s', hfirst, hrest⟩ := (run_cons_eq_some_iff s t e events).mp h
    rw [ih hrest, hstep s e s' hfirst, or_assoc]
    simp only [List.mem_cons, exists_eq_or_imp]

/-- The steps of a run: the states they are taken in, and the events. -/
def steps (m : System σ ε) : σ → List ε → List (σ × ε)
  | _, [] => []
  | s, e :: events => (s, e) :: (m.step s e).elim [] (fun s' => m.steps s' events)

/-- The states a run comes through, its first and last among them. -/
def states (m : System σ ε) : σ → List ε → List σ
  | s, [] => [s]
  | s, e :: events => s :: (m.step s e).elim [] (fun s' => m.states s' events)

/-- What holds at first, and behind a step exactly if that step is a good one,
holds all along a run exactly if all of its steps are. -/
theorem forall_states_iff {I P : σ → Prop} {Q : σ → ε → Prop}
    (hinv : ∀ s e s', m.step s e = some s' → I s → P s → I s')
    (hstep : ∀ s e s', m.step s e = some s' → I s → P s → (P s' ↔ Q s e))
    {s t : σ} {events : List ε} (h : m.run s events = some t) (hs : I s) (hp : P s) :
    (∀ x ∈ m.states s events, P x) ↔ ∀ p ∈ m.steps s events, Q p.1 p.2 := by
  induction events generalizing s with
  | nil => simpa [states, steps] using hp
  | cons e events ih =>
    obtain ⟨s', hfirst, hrest⟩ := (run_cons_eq_some_iff s t e events).mp h
    have hgood := hstep s e s' hfirst hs hp
    have hmem : s' ∈ m.states s' events := by cases events <;> simp [states]
    simp only [states, steps, hfirst, Option.elim_some, List.forall_mem_cons]
    constructor
    · intro hall
      have hp' := hall.2 s' hmem
      exact ⟨hgood.mp hp', (ih hrest (hinv s e s' hfirst hs hp) hp').mp hall.2⟩
    · intro hall
      have hp' := hgood.mpr hall.1
      exact ⟨hp, (ih hrest (hinv s e s' hfirst hs hp) hp').mpr hall.2⟩

/-- What good steps add to by at most `c`, and only on certain events, grows
along a run by at most `c` for each of them. -/
theorem le_add_of_run {I : σ → Prop} {Q : σ → ε → Prop} {f : σ → Nat} {F : ε → Bool} {c : Nat}
    (hstep : ∀ s e s', m.step s e = some s' → I s → Q s e →
      I s' ∧ f s' ≤ f s + if F e then c else 0)
    {s t : σ} {events : List ε} (h : m.run s events = some t) (hs : I s)
    (hgood : ∀ p ∈ m.steps s events, Q p.1 p.2) : I t ∧ f t ≤ f s + events.countP F * c := by
  induction events generalizing s with
  | nil =>
    cases h
    exact ⟨hs, Nat.le_add_right _ _⟩
  | cons e events ih =>
    obtain ⟨s', hfirst, hrest⟩ := (run_cons_eq_some_iff s t e events).mp h
    simp only [steps, hfirst, Option.elim_some, List.forall_mem_cons] at hgood
    obtain ⟨hs', hle⟩ := hstep s e s' hfirst hs hgood.1
    obtain ⟨ht, hle'⟩ := ih hrest hs' hgood.2
    refine ⟨ht, Nat.le_trans hle' ?_⟩
    by_cases he : F e = true
    · rw [if_pos he] at hle
      rw [List.countP_cons_of_pos he, Nat.succ_mul]
      omega
    · rw [if_neg he] at hle
      rw [List.countP_cons_of_neg he]
      omega

/-- Where every step lowers a measure until something is done, a run that has not done
it yet is no longer than the measure. -/
theorem length_add_le_of_run {I G : σ → Prop} {f : σ → Nat}
    (hinv : ∀ s e s', m.step s e = some s' → I s → I s')
    (hstep : ∀ s e s', m.step s e = some s' → I s → I s' → G s' → G s ∧ f s' < f s)
    {s t : σ} {events : List ε} (h : m.run s events = some t) (hs : I s) (ht : G t) :
    G s ∧ events.length + f t ≤ f s := by
  induction events generalizing s with
  | nil =>
    cases h
    exact ⟨ht, Nat.le_of_eq (Nat.zero_add _)⟩
  | cons e events ih =>
    obtain ⟨s', hfirst, hrest⟩ := (run_cons_eq_some_iff s t e events).mp h
    have hs' := hinv s e s' hfirst hs
    obtain ⟨hgoing, hle⟩ := ih hrest hs'
    obtain ⟨hbefore, hlt⟩ := hstep s e s' hfirst hs hs' hgoing
    refine ⟨hbefore, ?_⟩
    rw [List.length_cons]
    omega

/-- A run without an end. -/
structure Behaviour (m : System σ ε) where
  state : Nat → σ
  event : Nat → ε
  starts : state 0 = m.init
  goes : ∀ n, m.step (state n) (event n) = some (state (n + 1))

namespace Behaviour

/-- Its first events. -/
def upTo (b : m.Behaviour) (n : Nat) : List ε := (List.range' 0 n).map b.event

theorem upTo_succ (b : m.Behaviour) (n : Nat) : b.upTo (n + 1) = b.upTo n ++ [b.event n] := by
  simp [upTo, List.range'_concat]

theorem run_range' (b : m.Behaviour) (k n : Nat) :
    m.run (b.state k) ((List.range' k n).map b.event) = some (b.state (k + n)) := by
  induction n generalizing k with
  | zero => rfl
  | succ n ih =>
    rw [List.range'_succ, List.map_cons, run_cons_eq_some_iff]
    refine ⟨b.state (k + 1), b.goes k, ?_⟩
    rw [ih (k + 1), Nat.add_right_comm, Nat.add_assoc]

theorem run_upTo (b : m.Behaviour) (n : Nat) : m.run m.init (b.upTo n) = some (b.state n) := by
  have hrun := b.run_range' 0 n
  rwa [b.starts, Nat.zero_add] at hrun

theorem exists_of_mem_steps (b : m.Behaviour) (k n : Nat) :
    ∀ p ∈ m.steps (b.state k) ((List.range' k n).map b.event),
      ∃ i, p = (b.state i, b.event i) := by
  induction n generalizing k with
  | zero => simp [steps]
  | succ n ih =>
    rw [List.range'_succ, List.map_cons, steps, b.goes k, Option.elim_some, List.forall_mem_cons]
    exact ⟨⟨k, rfl⟩, ih (k + 1)⟩

/-- What holds at first, and behind a step exactly if that step is a good one, holds
for ever exactly if all steps are. -/
theorem forall_iff {I P : σ → Prop} {Q : σ → ε → Prop} (b : m.Behaviour)
    (hinv : ∀ s e s', m.step s e = some s' → I s → P s → I s')
    (hstep : ∀ s e s', m.step s e = some s' → I s → P s → (P s' ↔ Q s e))
    (hs : I m.init) (hp : P m.init) :
    (∀ n, P (b.state n)) ↔ ∀ n, Q (b.state n) (b.event n) := by
  constructor
  · intro hall
    have hinvs : ∀ n, I (b.state n) := by
      intro n
      induction n with
      | zero => exact b.starts ▸ hs
      | succ n ih => exact hinv _ _ _ (b.goes n) ih (hall n)
    intro n
    exact (hstep _ _ _ (b.goes n) (hinvs n) (hall n)).mp (hall (n + 1))
  · intro hgood
    have hboth : ∀ n, I (b.state n) ∧ P (b.state n) := by
      intro n
      induction n with
      | zero => exact b.starts ▸ ⟨hs, hp⟩
      | succ n ih =>
        exact ⟨hinv _ _ _ (b.goes n) ih.1 ih.2,
          (hstep _ _ _ (b.goes n) ih.1 ih.2).mpr (hgood n)⟩
    exact fun n => (hboth n).2

/-- What every step keeps is kept for ever. -/
theorem invariant_from {P : σ → Prop} (b : m.Behaviour)
    (hstep : ∀ s e s', m.step s e = some s' → P s → P s') {k : Nat} (hk : P (b.state k)) :
    ∀ n, P (b.state (k + n)) := by
  intro n
  induction n with
  | zero => exact hk
  | succ n ih => exact hstep _ _ _ (b.goes (k + n)) ih

/-- A run that can stay where it ends goes on for ever. -/
def staying {t : σ} (events : List ε) (e : ε) (h : m.run m.init events = some t)
    (hstay : m.step t e = some t) : m.Behaviour where
  state n := ((m.states m.init events)[n]?).getD t
  event n := events[n]?.getD e
  starts := by cases events <;> rfl
  goes := by
    intro n
    generalize m.init = s at h
    induction events generalizing s n with
    | nil =>
      cases h
      cases n <;> simpa [states] using hstay
    | cons e' events ih =>
      obtain ⟨s', hfirst, hrest⟩ := (run_cons_eq_some_iff s t e' events).mp h
      simp only [states, hfirst, Option.elim_some]
      cases n with
      | zero => cases events <;> simpa [states] using hfirst
      | succ n => simpa using ih n s' hrest

section
variable {t : σ} {events : List ε} {e : ε} (h : m.run m.init events = some t)
  (hstay : m.step t e = some t)

/-- Its steps are those of the run, and then the one it stays by. -/
theorem step_staying (n : Nat) :
    ((staying events e h hstay).state n, (staying events e h hstay).event n) ∈
        m.steps m.init events ∨
      (staying events e h hstay).state n = t ∧ (staying events e h hstay).event n = e := by
  simp only [staying]
  generalize m.init = s at h
  induction events generalizing s n with
  | nil =>
    cases h
    right
    cases n <;> simp [states]
  | cons e' events ih =>
    obtain ⟨s', hfirst, hrest⟩ := (run_cons_eq_some_iff s t e' events).mp h
    simp only [states, steps, hfirst, Option.elim_some, List.mem_cons]
    cases n with
    | zero => simp
    | succ n =>
      rcases ih n s' hrest with hmem | hlast
      · exact .inl (.inr (by simpa using hmem))
      · exact .inr (by simpa using hlast)

theorem exists_state_staying : ∃ n, (staying events e h hstay).state n = t := by
  refine ⟨events.length + 1, ?_⟩
  simp only [staying]
  generalize m.init = s at h
  induction events generalizing s with
  | nil => simp [states]
  | cons e' events ih =>
    obtain ⟨s', hfirst, hrest⟩ := (run_cons_eq_some_iff s t e' events).mp h
    simpa [states, hfirst] using ih s' hrest

end

end Behaviour

/-- The same system, which takes no step once it has halted. -/
def haltingAt (m : System σ ε) (halted : σ → Bool) : System σ ε where
  init := m.init
  step s e := if halted s then none else m.step s e

theorem step_haltingAt_eq_some_iff (halted : σ → Bool) (s s' : σ) (e : ε) :
    (m.haltingAt halted).step s e = some s' ↔ halted s = false ∧ m.step s e = some s' := by
  simp only [haltingAt]
  split <;> simp_all

theorem run_of_run_haltingAt {halted : σ → Bool} {s t : σ} {events : List ε}
    (h : (m.haltingAt halted).run s events = some t) : m.run s events = some t := by
  induction events generalizing s with
  | nil => exact h
  | cons e events ih =>
    obtain ⟨s', hfirst, hrest⟩ := (run_cons_eq_some_iff s t e events).mp h
    exact (run_cons_eq_some_iff s t e events).mpr
      ⟨s', ((step_haltingAt_eq_some_iff halted s s' e).mp hfirst).2, ih hrest⟩

theorem Reachable.of_haltingAt {halted : σ → Bool} {s : σ} (h : (m.haltingAt halted).Reachable s) :
    m.Reachable s := by
  obtain ⟨events, hrun⟩ := h
  exact ⟨events, run_of_run_haltingAt hrun⟩

end

section
variable {ι : Type} [DecidableEq ι] {σ ε : ι → Type} {m : (i : ι) → System (σ i) (ε i)}

/-- A family of systems side by side: an event belongs to one of them. -/
def interleave (m : (i : ι) → System (σ i) (ε i)) :
    System ((i : ι) → σ i) ((i : ι) × ε i) where
  init := fun i => (m i).init
  step s e := ((m e.1).step (s e.1) e.2).map (Function.update s e.1)

theorem step_interleave_eq_some_iff (s t : (i : ι) → σ i) (i : ι) (e : ε i) :
    (interleave m).step s ⟨i, e⟩ = some t ↔
      ∃ s', (m i).step (s i) e = some s' ∧ Function.update s i s' = t :=
  Option.map_eq_some_iff

/-- A run of the family moves each member along a run of its own. -/
theorem run_component {s t : (i : ι) → σ i} {events : List ((i : ι) × ε i)}
    (h : (interleave m).run s events = some t) (i : ι) :
    ∃ own, (m i).run (s i) own = some (t i) ∧ ∀ e ∈ own, ⟨i, e⟩ ∈ events := by
  induction events generalizing s with
  | nil =>
    cases h
    exact ⟨[], rfl, by simp⟩
  | cons e events ih =>
    obtain ⟨j, e⟩ := e
    obtain ⟨s', hfirst, hrest⟩ := (run_cons_eq_some_iff s t ⟨j, e⟩ events).mp h
    obtain ⟨t', hstep, rfl⟩ := (step_interleave_eq_some_iff s s' j e).mp hfirst
    obtain ⟨own, hown, hevents⟩ := ih hrest
    by_cases hij : i = j
    · subst hij
      rw [Function.update_self] at hown
      refine ⟨e :: own, (run_cons_eq_some_iff _ _ _ _).mpr ⟨t', hstep, hown⟩, ?_⟩
      rw [List.forall_mem_cons]
      exact ⟨List.mem_cons_self, fun e he => List.mem_cons_of_mem _ (hevents e he)⟩
    · rw [Function.update_of_ne hij] at hown
      exact ⟨own, hown, fun e he => List.mem_cons_of_mem _ (hevents e he)⟩

/-- So every member is in a state it could have reached alone. -/
theorem Reachable.component {s : (i : ι) → σ i} (h : (interleave m).Reachable s) (i : ι) :
    (m i).Reachable (s i) := by
  obtain ⟨events, hrun⟩ := h
  obtain ⟨own, hown, _⟩ := run_component hrun i
  exact ⟨own, hown⟩

/-- A property of some member spreads by the steps that give it to one. -/
theorem step_interleave_exists_iff {P : (i : ι) → σ i → Prop} {F : (i : ι) → ε i → Prop}
    (hstep : ∀ i s e s', (m i).step s e = some s' → (P i s' ↔ P i s ∨ F i e))
    (s : (i : ι) → σ i) (e : (i : ι) × ε i) (t : (i : ι) → σ i)
    (h : (interleave m).step s e = some t) :
    (∃ i, P i (t i)) ↔ (∃ i, P i (s i)) ∨ F e.1 e.2 := by
  obtain ⟨i, e⟩ := e
  obtain ⟨s', hi, rfl⟩ := (step_interleave_eq_some_iff s t i e).mp h
  have hown := hstep i (s i) e s' hi
  constructor
  · rintro ⟨j, hj⟩
    by_cases hji : j = i
    · subst hji
      rw [Function.update_self] at hj
      exact (hown.mp hj).imp (fun hp => ⟨j, hp⟩) id
    · rw [Function.update_of_ne hji] at hj
      exact .inl ⟨j, hj⟩
  · rintro (⟨j, hj⟩ | hf)
    · by_cases hji : j = i
      · subst hji
        refine ⟨j, ?_⟩
        rw [Function.update_self]
        exact hown.mpr (.inl hj)
      · refine ⟨j, ?_⟩
        rw [Function.update_of_ne hji]
        exact hj
    · refine ⟨i, ?_⟩
      rw [Function.update_self]
      exact hown.mpr (.inr hf)

end

end System
