import Deezns.Runs

/-!
# Simulations

A system with more in its states than another one does what that one does if
forgetting the rest takes steps to steps, or to none at all. What is known of
the runs of the plain system then holds of the runs of the full one.
-/

/-- Every step of a system is one of another system, or none. -/
structure Simulation {σ ε σ' ε' : Type} (m : System σ ε) (m' : System σ' ε') where
  state : σ → σ'
  event : ε → Option ε'
  init : state m.init = m'.init
  step : ∀ s e s', m.step s e = some s' →
    match event e with
    | some e' => m'.step (state s) e' = some (state s')
    | none => state s' = state s

namespace Simulation

section
variable {σ ε σ' ε' : Type} {m : System σ ε} {m' : System σ' ε'} (sim : Simulation m m')

theorem step_some {s s' : σ} {e : ε} {e' : ε'} (h : m.step s e = some s')
    (he : sim.event e = some e') : m'.step (sim.state s) e' = some (sim.state s') := by
  have hstep := sim.step s e s' h
  rwa [he] at hstep

theorem step_none {s s' : σ} {e : ε} (h : m.step s e = some s') (he : sim.event e = none) :
    sim.state s' = sim.state s := by
  have hstep := sim.step s e s' h
  rwa [he] at hstep

/-- A run is taken to a run, of the events that are steps there. -/
theorem run {s t : σ} {events : List ε} (h : m.run s events = some t) :
    m'.run (sim.state s) (events.filterMap sim.event) = some (sim.state t) := by
  induction events generalizing s with
  | nil =>
    cases h
    rfl
  | cons e events ih =>
    obtain ⟨s', hfirst, hrest⟩ := (System.run_cons_eq_some_iff s t e events).mp h
    cases he : sim.event e with
    | none =>
      rw [List.filterMap_cons_none he, ← sim.step_none hfirst he]
      exact ih hrest
    | some e' =>
      rw [List.filterMap_cons_some he]
      exact (System.run_cons_eq_some_iff _ _ e' _).mpr
        ⟨sim.state s', sim.step_some hfirst he, ih hrest⟩

theorem run_init {t : σ} {events : List ε} (h : m.run m.init events = some t) :
    m'.run m'.init (events.filterMap sim.event) = some (sim.state t) := by
  rw [← sim.init]
  exact sim.run h

theorem reachable {s : σ} (h : m.Reachable s) : m'.Reachable (sim.state s) := by
  obtain ⟨events, hrun⟩ := h
  exact ⟨_, sim.run_init hrun⟩

/-- Where the plain system has halted, the full one has. -/
def haltingAt (halted' : σ' → Bool) :
    Simulation (m.haltingAt (fun s => halted' (sim.state s))) (m'.haltingAt halted') where
  state := sim.state
  event := sim.event
  init := sim.init
  step := by
    intro s e s' h
    obtain ⟨hgoing, hstep⟩ := (System.step_haltingAt_eq_some_iff _ s s' e).mp h
    have htaken := sim.step s e s' hstep
    cases he : sim.event e with
    | none =>
      rw [he] at htaken
      exact htaken
    | some e' =>
      rw [he] at htaken
      exact (System.step_haltingAt_eq_some_iff _ _ _ e').mpr ⟨hgoing, htaken⟩

end

section
variable {ι : Type} [DecidableEq ι] {σ ε σ' ε' : ι → Type} {m : (i : ι) → System (σ i) (ε i)}
  {m' : (i : ι) → System (σ' i) (ε' i)}

theorem map_update (f : (i : ι) → σ i → σ' i) (s : (i : ι) → σ i) (i : ι) (x : σ i) :
    (fun j => f j (Function.update s i x j)) = Function.update (fun j => f j (s j)) i (f i x) := by
  funext j
  by_cases hji : j = i
  · subst hji
    rw [Function.update_self, Function.update_self]
  · rw [Function.update_of_ne hji, Function.update_of_ne hji]

/-- Systems side by side are simulated one by one. -/
def interleave (sim : (i : ι) → Simulation (m i) (m' i)) :
    Simulation (System.interleave m) (System.interleave m') where
  state s := fun i => (sim i).state (s i)
  event e := ((sim e.1).event e.2).map (Sigma.mk e.1)
  init := by
    funext i
    exact (sim i).init
  step := by
    rintro s ⟨i, e⟩ t h
    obtain ⟨s', hstep, rfl⟩ := (System.step_interleave_eq_some_iff s t i e).mp h
    have hmap := map_update (fun j => (sim j).state) s i s'
    cases he : (sim i).event e with
    | none =>
      simp only [Option.map_none]
      rw [hmap, (sim i).step_none hstep he]
      exact Function.update_eq_self i _
    | some e' =>
      simp only [Option.map_some]
      rw [hmap]
      exact (System.step_interleave_eq_some_iff _ _ i e').mpr
        ⟨_, (sim i).step_some hstep he, rfl⟩

end

end Simulation
