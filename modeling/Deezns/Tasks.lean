import Deezns.Simulations
import Mathlib.Algebra.Order.BigOperators.Group.List
import Mathlib.Algebra.Order.Ring.Nat
import Mathlib.Data.List.Perm.Basic
import Mathlib.Data.List.Range

/-!
# Tasks

A dispatcher takes up jobs as they come and gives each to a task of its own,
and its tasks finish in any order. Whatever else it does, every job that came
is waiting, with its task, or done, in one of these ways and once; and what
became of it is the work of its task on it, and on no other.
-/

/-- What an event is to the jobs. -/
inductive Duty where
  | takes
  | finishes (task : Nat)
  | none
  deriving DecidableEq, Repr

/-- A system that takes up jobs. Tasks are numbered in the order of their jobs. -/
structure Dispatcher (σ ε : Type) extends System σ ε where
  duty : ε → Duty
  running : σ → List Nat
  taken : σ → Nat
  running_init : running init = []
  taken_init : taken init = 0
  /-- An event keeps the books on its tasks. -/
  step_duty : ∀ s e s', step s e = some s' →
    match duty e with
    | .takes => running s' = taken s :: running s ∧ taken s' = taken s + 1
    | .finishes task =>
      task ∈ running s ∧ running s' = (running s).erase task ∧ taken s' = taken s
    | .none => running s' = running s ∧ taken s' = taken s
  /-- A task comes to its end. -/
  finish : Nat → ε
  duty_finish : ∀ task, duty (finish task) = .finishes task
  /-- No task is kept from it. -/
  step_finish : ∀ s task, task ∈ running s → ∃ s', step s (finish task) = some s'

namespace Dispatcher

/-- A dispatcher with its jobs. -/
structure Books (σ j r : Type) where
  control : σ
  /-- What has come and was not taken up. -/
  queue : List j
  /-- What was taken up, the job of each task in its place. -/
  jobs : List j
  /-- What became of the jobs, by their tasks. -/
  results : List (Nat × r)

/-- A job comes, or the dispatcher takes a step; a task that finishes has seen
something of the world. -/
inductive Event (ε j κ : Type) where
  | arrive (job : j)
  | turn (e : ε) (seen : κ)

namespace Event

variable {ε j κ : Type}

def arrived : Event ε j κ → Option j
  | .arrive job => some job
  | .turn _ _ => none

def taking : Event ε j κ → Option ε
  | .arrive _ => none
  | .turn e _ => some e

end Event

section
variable {σ ε j κ r : Type}

/-- The turns of a dispatcher whose tasks do some work. -/
def turn (d : Dispatcher σ ε) (work : j → κ → ε → r) (s : Books σ j r) (e : ε) (seen : κ)
    (control : σ) : Option (Books σ j r) :=
  match d.duty e with
  | .takes =>
    match s.queue with
    | [] => none
    | job :: queue => some { s with control := control, queue := queue, jobs := s.jobs ++ [job] }
  | .finishes task =>
    (s.jobs[task]?).map (fun job =>
      { s with control := control, results := s.results ++ [(task, work job seen e)] })
  | .none => some { s with control := control }

def serving (d : Dispatcher σ ε) (work : j → κ → ε → r) :
    System (Books σ j r) (Event ε j κ) where
  init := ⟨d.init, [], [], []⟩
  step s
    | .arrive job => some { s with queue := s.queue ++ [job] }
    | .turn e seen => (d.step s.control e).bind (d.turn work s e seen)

variable {d : Dispatcher σ ε} {work : j → κ → ε → r}

/-- All that a turn can do. -/
theorem turn_cases {s s' : Books σ j r} {e : ε} {seen : κ} {control : σ}
    (h : d.turn work s e seen control = some s') :
    (∃ job, d.duty e = .takes ∧ s.queue = job :: s'.queue ∧
      s' = ⟨control, s'.queue, s.jobs ++ [job], s.results⟩) ∨
    (∃ task job, d.duty e = .finishes task ∧ s.jobs[task]? = some job ∧
      s' = ⟨control, s.queue, s.jobs, s.results ++ [(task, work job seen e)]⟩) ∨
    (d.duty e = .none ∧ s' = ⟨control, s.queue, s.jobs, s.results⟩) := by
  unfold turn at h
  cases hduty : d.duty e with
  | takes =>
    rw [hduty] at h
    cases hqueue : s.queue with
    | nil =>
      rw [hqueue] at h
      cases h
    | cons job queue =>
      rw [hqueue] at h
      cases h
      exact .inl ⟨job, rfl, rfl, rfl⟩
  | finishes task =>
    rw [hduty] at h
    obtain ⟨job, hjob, rfl⟩ := Option.map_eq_some_iff.mp h
    exact .inr (.inl ⟨task, job, rfl, hjob, rfl⟩)
  | none =>
    rw [hduty] at h
    cases h
    exact .inr (.inr ⟨rfl, rfl⟩)

theorem step_turn {s s' : Books σ j r} {e : ε} {seen : κ}
    (h : (d.serving work).step s (.turn e seen) = some s') :
    ∃ control, d.step s.control e = some control ∧ d.turn work s e seen control = some s' :=
  Option.bind_eq_some_iff.mp h

/-- A turn leaves the dispatcher where its own step takes it. -/
theorem control_of_turn {s s' : Books σ j r} {e : ε} {seen : κ} {control : σ}
    (h : d.turn work s e seen control = some s') : s'.control = control := by
  rcases turn_cases h with ⟨job, _, _, heq⟩ | ⟨task, job, _, _, heq⟩ | ⟨_, heq⟩
  · rw [heq]
  · rw [heq]
  · rw [heq]

/-- Without its jobs, it is the dispatcher. -/
def plain (d : Dispatcher σ ε) (work : j → κ → ε → r) :
    Simulation (d.serving work) d.toSystem where
  state := Books.control
  event := Event.taking
  init := rfl
  step := by
    intro s e s' h
    cases e with
    | arrive job =>
      cases h
      rfl
    | turn e seen =>
      obtain ⟨control, hstep, hturn⟩ := step_turn h
      rw [control_of_turn hturn]
      exact hstep

/-- The books are in order: every task is running or done, and only once, and
what is done is the work of a task on its own job. -/
structure InOrder (d : Dispatcher σ ε) (work : j → κ → ε → r) (s : Books σ j r) : Prop where
  taken : d.taken s.control = s.jobs.length
  tasks : (s.results.map Prod.fst ++ d.running s.control).Perm (List.range s.jobs.length)
  worked : ∀ result ∈ s.results, ∃ job seen e, s.jobs[result.1]? = some job ∧
    d.duty e = .finishes result.1 ∧ result.2 = work job seen e

/-- There is a task for each job, running or done, and only once. -/
structure Counted (d : Dispatcher σ ε) (s : Books σ j r) : Prop where
  taken : d.taken s.control = s.jobs.length
  tasks : (s.results.map Prod.fst ++ d.running s.control).Perm (List.range s.jobs.length)

theorem InOrder.counted {s : Books σ j r} (h : InOrder d work s) : Counted d s :=
  ⟨h.taken, h.tasks⟩

/-- A job that is taken up gets a task, and a task that finishes has had its own. -/
theorem counted_step (s : Books σ j r) (event : Event ε j κ) (s' : Books σ j r)
    (h : (d.serving work).step s event = some s') (hs : Counted d s) : Counted d s' := by
  cases event with
  | arrive job =>
    cases h
    exact ⟨hs.taken, hs.tasks⟩
  | turn e seen =>
    obtain ⟨control, hstep, hturn⟩ := step_turn h
    have hduty := d.step_duty _ _ _ hstep
    rcases turn_cases hturn with ⟨job, htakes, _, heq⟩ | ⟨task, job, hfinishes, hjob, heq⟩ |
      ⟨hnone, heq⟩
    · rw [htakes] at hduty
      obtain ⟨hrunning, htaken⟩ := hduty
      rw [heq]
      constructor
      · simp only [htaken, hs.taken, List.length_append, List.length_singleton]
      · simp only [hrunning, hs.taken, List.length_append, List.length_singleton,
          List.range_succ]
        exact List.perm_middle.trans
          ((hs.tasks.cons s.jobs.length).trans (List.perm_append_singleton _ _).symm)
    · rw [hfinishes] at hduty
      obtain ⟨hmem, hrunning, htaken⟩ := hduty
      rw [heq]
      constructor
      · simp only [htaken, hs.taken]
      · simp only [hrunning, List.map_append, List.map_singleton, List.append_assoc]
        exact (List.Perm.append_left _ (List.perm_cons_erase hmem).symm).trans hs.tasks
    · rw [hnone] at hduty
      obtain ⟨hrunning, htaken⟩ := hduty
      rw [heq]
      exact ⟨htaken.trans hs.taken, by simpa only [hrunning] using hs.tasks⟩

/-- What is done was done when its task finished, with what it saw then. -/
theorem worked_of_run {s : Books σ j r} {events : List (Event ε j κ)}
    (h : (d.serving work).run (d.serving work).init events = some s) :
    ∀ result ∈ s.results, ∃ job seen e, s.jobs[result.1]? = some job ∧
      .turn e seen ∈ events ∧ d.duty e = .finishes result.1 ∧ result.2 = work job seen e := by
  refine System.run_invariant_of_forall (F := fun event => event ∈ events)
    (P := fun s : Books σ j r => ∀ result ∈ s.results, ∃ job seen e, s.jobs[result.1]? = some job ∧
      .turn e seen ∈ events ∧ d.duty e = .finishes result.1 ∧ result.2 = work job seen e)
    ?_ h (fun _ hmem => hmem) (by simp [serving])
  intro s event s' hevent hstep hs
  cases event with
  | arrive job =>
    cases hstep
    exact hs
  | turn e seen =>
    obtain ⟨control, -, hturn⟩ := step_turn hstep
    rcases turn_cases hturn with ⟨job, _, _, heq⟩ | ⟨task, job, hfinishes, hjob, heq⟩ | ⟨_, heq⟩
    · rw [heq]
      intro result hmem
      obtain ⟨job', seen', e', hjob', hrest⟩ := hs result hmem
      exact ⟨job', seen', e', List.getElem?_append_left
        (List.getElem?_eq_some_iff.mp hjob').1 ▸ hjob', hrest⟩
    · rw [heq]
      simp only [List.forall_mem_append, List.forall_mem_singleton]
      exact ⟨hs, job, seen, e, hjob, hevent, hfinishes, rfl⟩
    · rw [heq]
      exact hs

/-- The books are always in order. -/
theorem inOrder_of_reachable {s : Books σ j r} (h : (d.serving work).Reachable s) :
    InOrder d work s := by
  have hcounted : Counted d s :=
    h.invariant ⟨d.taken_init, by simp [serving, d.running_init]⟩ counted_step
  refine ⟨hcounted.taken, hcounted.tasks, fun result hmem => ?_⟩
  obtain ⟨events, hrun⟩ := h
  obtain ⟨job, seen, e, hjob, _, hdone⟩ := worked_of_run hrun result hmem
  exact ⟨job, seen, e, hjob, hdone⟩

theorem map_range_getElem? (g : j → Nat) (jobs : List j) :
    (List.range jobs.length).map (fun task => (jobs[task]?).elim 0 g) = jobs.map g := by
  refine List.ext_getElem (by simp) (fun task htask _ => ?_)
  rw [List.length_map, List.length_range] at htask
  simp [htask]

/-- What comes of the tasks adds up to no more than what may come of the jobs. -/
theorem InOrder.sum_results_le {s : Books σ j r} (hs : InOrder d work s) {f : r → Nat} {g : j → Nat}
    (h : ∀ result ∈ s.results, ∀ job, s.jobs[result.1]? = some job → f result.2 ≤ g job) :
    (s.results.map (fun result => f result.2)).sum ≤ (s.jobs.map g).sum := by
  let bound : Nat → Nat := fun task => (s.jobs[task]?).elim 0 g
  calc (s.results.map (fun result => f result.2)).sum
      ≤ (s.results.map (fun result => bound result.1)).sum := by
        refine List.sum_le_sum (fun result hmem => ?_)
        obtain ⟨job, _, _, hjob, _⟩ := hs.worked result hmem
        simp only [bound, hjob]
        exact h result hmem job hjob
    _ ≤ ((s.results.map Prod.fst ++ d.running s.control).map bound).sum := by
        rw [List.map_append, List.map_map, List.sum_append]
        exact Nat.le_add_right _ _
    _ = ((List.range s.jobs.length).map bound).sum := (hs.tasks.map bound).sum_eq
    _ = (s.jobs.map g).sum := by rw [map_range_getElem?]

/-- Jobs are taken up in the order they come in. -/
theorem queue_run {s t : Books σ j r} {events : List (Event ε j κ)}
    (h : (d.serving work).run s events = some t) :
    t.jobs ++ t.queue = s.jobs ++ s.queue ++ events.filterMap Event.arrived := by
  induction events generalizing s with
  | nil =>
    cases h
    simp
  | cons event events ih =>
    obtain ⟨s', hfirst, hrest⟩ := (System.run_cons_eq_some_iff s t event events).mp h
    rw [ih hrest]
    cases event with
    | arrive job =>
      cases hfirst
      simp [Event.arrived]
    | turn e seen =>
      obtain ⟨control, -, hturn⟩ := step_turn hfirst
      rw [List.filterMap_cons_none rfl]
      congr 1
      rcases turn_cases hturn with ⟨job, _, hqueue, heq⟩ | ⟨task, job, _, _, heq⟩ | ⟨_, heq⟩
      · rw [heq, hqueue, List.append_assoc]
        rfl
      · rw [heq]
      · rw [heq]

/-- The work that is planned for a task, if it has its job. -/
def planned (plan : Nat → j → r) (jobs : List j) (task : Nat) : Option (Nat × r) :=
  (jobs[task]?).map (fun job => (task, plan task job))

theorem planned_append_of_lt (plan : Nat → j → r) (jobs jobs' : List j) {task : Nat}
    (h : task < jobs.length) : planned plan (jobs ++ jobs') task = planned plan jobs task := by
  rw [planned, planned, List.getElem?_append_left h]

theorem filterMap_planned_range (plan : Nat → j → r) (jobs : List j) :
    (List.range jobs.length).filterMap (planned plan jobs) =
      jobs.mapIdx (fun task job => (task, plan task job)) := by
  induction jobs using List.reverseRecOn with
  | nil => rfl
  | append_singleton jobs job ih =>
    have hlast : planned plan (jobs ++ [job]) jobs.length =
        some (jobs.length, plan jobs.length job) := by simp [planned]
    rw [List.length_append, List.length_singleton, List.range_succ, List.filterMap_append,
      List.filterMap_cons_some hlast, List.filterMap_nil, List.mapIdx_concat, ← ih]
    congr 1
    refine List.filterMap_congr (fun task htask => ?_)
    exact planned_append_of_lt plan jobs [job] (List.mem_range.mp htask)

/-- The turn does the work that is planned for its task. -/
def Follows (d : Dispatcher σ ε) (work : j → κ → ε → r) (plan : Nat → j → r) :
    Event ε j κ → Prop
  | .arrive _ => True
  | .turn e seen => ∀ task, d.duty e = .finishes task → ∀ job, work job seen e = plan task job

theorem results_step {plan : Nat → j → r} (s : Books σ j r) (event : Event ε j κ)
    (s' : Books σ j r) (hfollows : Follows d work plan event)
    (h : (d.serving work).step s event = some s')
    (hs : ∀ result ∈ s.results, planned plan s.jobs result.1 = some result) :
    ∀ result ∈ s'.results, planned plan s'.jobs result.1 = some result := by
  cases event with
  | arrive job =>
    cases h
    exact hs
  | turn e seen =>
    obtain ⟨control, -, hturn⟩ := step_turn h
    rcases turn_cases hturn with ⟨job, _, _, heq⟩ | ⟨task, job, hfinishes, hjob, heq⟩ | ⟨_, heq⟩
    · rw [heq]
      intro result hmem
      obtain ⟨job', hjob', hresult⟩ := Option.map_eq_some_iff.mp (hs result hmem)
      rw [planned_append_of_lt plan s.jobs [job] (List.getElem?_eq_some_iff.mp hjob').1]
      exact hs result hmem
    · rw [heq]
      simp only [List.forall_mem_append, List.forall_mem_singleton]
      refine ⟨hs, ?_⟩
      rw [planned, hjob, hfollows task hfinishes job]
      rfl
    · rw [heq]
      exact hs

/-- In whatever order tasks finish: what is done, and what the running tasks are
planned to do, is the planned work on every job there was, each once. -/
theorem results_perm {plan : Nat → j → r} {s : Books σ j r} {events : List (Event ε j κ)}
    (h : (d.serving work).run (d.serving work).init events = some s)
    (hfollows : ∀ event ∈ events, Follows d work plan event) :
    (s.results ++ (d.running s.control).filterMap (planned plan s.jobs)).Perm
      (s.jobs.mapIdx (fun task job => (task, plan task job))) := by
  have hplanned : ∀ result ∈ s.results, planned plan s.jobs result.1 = some result :=
    System.run_invariant_of_forall (P := fun s : Books σ j r =>
      ∀ result ∈ s.results, planned plan s.jobs result.1 = some result)
      results_step h hfollows (by simp [serving])
  have hdone : (s.results.map Prod.fst).filterMap (planned plan s.jobs) = s.results := by
    rw [List.filterMap_map]
    exact (List.filterMap_congr hplanned).trans List.filterMap_some
  have htasks := (inOrder_of_reachable ⟨events, h⟩).tasks.filterMap (planned plan s.jobs)
  rwa [List.filterMap_append, hdone, filterMap_planned_range] at htasks

/-- Whatever there is to do can be done: the running tasks come to their ends. -/
theorem exists_drained (seen : κ) {s : Books σ j r} (hs : Counted d s) :
    ∃ events t, (d.serving work).run s events = some t ∧ d.running t.control = [] ∧
      t.jobs = s.jobs ∧ t.queue = s.queue ∧
      t.results = s.results ++ (d.running s.control).filterMap
        (planned (fun task job => work job seen (d.finish task)) s.jobs) := by
  generalize hn : (d.running s.control).length = n
  induction n generalizing s with
  | zero =>
    have hempty := List.length_eq_zero_iff.mp hn
    exact ⟨[], s, rfl, hempty, rfl, rfl, by simp [hempty]⟩
  | succ n ih =>
    obtain ⟨task, rest, hrunning⟩ := List.exists_cons_of_length_eq_add_one hn
    have hmem : task ∈ d.running s.control := by simp [hrunning]
    have hlt : task < s.jobs.length :=
      List.mem_range.mp (hs.tasks.subset (List.mem_append_right _ hmem))
    obtain ⟨control, hstep⟩ := d.step_finish s.control task hmem
    have hturn : (d.serving work).step s (.turn (d.finish task) seen) = some
        { s with
          control := control
          results := s.results ++ [(task, work s.jobs[task] seen (d.finish task))] } := by
      simp [serving, turn, hstep, d.duty_finish, hlt]
    have hduty := d.step_duty _ _ _ hstep
    rw [d.duty_finish] at hduty
    have hrest : d.running control = rest := by
      rw [hduty.2.1, hrunning, List.erase_cons_head]
    obtain ⟨events, t, hrun, hempty, hjobs, hqueue, hresults⟩ :=
      ih (counted_step s _ _ hturn hs) (by simpa [hrest, hrunning] using hn)
    refine ⟨_, t, (System.run_cons_eq_some_iff _ _ _ _).mpr ⟨_, hturn, hrun⟩, hempty, hjobs,
      hqueue, ?_⟩
    have hplanned : planned (fun task job => work job seen (d.finish task)) s.jobs task =
        some (task, work s.jobs[task] seen (d.finish task)) := by simp [planned, hlt]
    rw [hresults, hrest, hrunning, List.filterMap_cons_some hplanned, List.append_assoc]
    rfl

end

end Dispatcher
