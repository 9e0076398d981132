import Deezns.Policy
import Deezns.Runs

/-!
# The listeners

A listener is a loop that accepts and gives what it accepted to a task of its
own. All but the one on the policy socket bound their work: a slot is acquired
before accepting, moves into the task, and is dropped with it, however it ends.
-/
namespace Deezns.Listeners

/-- Where a loop stands. -/
inductive Point where
  /-- Waiting for a slot. -/
  | acquiring
  /-- In `accept()` or `recv_from()`, with a slot. -/
  | accepting
  /-- Asleep after a failed `accept()`, still with the slot. -/
  | pausing
  | ended (e : IoError)
  deriving DecidableEq, Repr

/-- How a task ends. -/
inductive Exit where
  | returned
  | failed (e : IoError)
  | panicked
  deriving DecidableEq, Repr

structure Loop where
  free : Nat
  point : Point
  /-- The tasks, by the number of the connection or datagram. -/
  running : List Nat
  accepted : Nat
  deriving DecidableEq, Repr

inductive Event where
  | acquire
  | accept (result : Except IoError Unit)
  | retry
  | finish (task : Nat) (exit : Exit)
  deriving DecidableEq, Repr

namespace Loop

/-- The slot the loop itself holds, if it does. -/
def held (s : Loop) : Nat :=
  match s.point with
  | .acquiring => 0
  | .accepting => 1
  | .pausing => 1
  | .ended _ => 0

/-- The error a loop is over with. -/
def result (s : Loop) : Option IoError :=
  match s.point with
  | .ended e => some e
  | _ => none

/-- `tokio::spawn`: what was accepted gets a task, and with it the slot. -/
def spawn (s : Loop) (next : Point) : Loop :=
  { s with point := next, running := s.accepted :: s.running, accepted := s.accepted + 1 }

end Loop

/-- One turn of a loop over slots, up to what it does where accepting fails. -/
def boundedStep (onError : Loop → IoError → Loop) (s : Loop) : Event → Option Loop
  | .acquire =>
    if s.point = .acquiring ∧ 0 < s.free then
      some { s with free := s.free - 1, point := .accepting }
    else none
  | .accept (.ok ()) => if s.point = .accepting then some (s.spawn .acquiring) else none
  | .accept (.error e) => if s.point = .accepting then some (onError s e) else none
  | .retry =>
    if s.point = .pausing then some { s with free := s.free + 1, point := .acquiring } else none
  | .finish task _ =>
    if task ∈ s.running then
      some { s with free := s.free + 1, running := s.running.erase task }
    else none

/-- A failed `accept()` is followed by a pause, after which the slot is dropped. -/
def pause (s : Loop) (_ : IoError) : Loop := { s with point := .pausing }

/-- A failed `recv_from()` ends the loop, and the slot is dropped on the way. -/
def stop (s : Loop) (e : IoError) : Loop := { s with free := s.free + 1, point := .ended e }

/-- `nscd::Frontend::serve`. -/
def serveNscd (maxConnections : Nat) : System Loop Event where
  init := ⟨maxConnections, .acquiring, [], 0⟩
  step := boundedStep pause

/-- `dns::Frontend::serve_tcp`. -/
def serveTcp (maxConnections : Nat) : System Loop Event where
  init := ⟨maxConnections, .acquiring, [], 0⟩
  step := boundedStep pause

/-- `dns::Frontend::serve_udp`. -/
def serveUdp (maxConnections : Nat) : System Loop Event where
  init := ⟨maxConnections, .acquiring, [], 0⟩
  step := boundedStep stop

/-- `serve_policy_socket`, which has no slots: a failed `accept()` ends it. -/
def servePolicySocket : System Loop Event where
  init := ⟨0, .accepting, [], 0⟩
  step s
    | .acquire => none
    | .accept (.ok ()) => if s.point = .accepting then some (s.spawn .accepting) else none
    | .accept (.error e) =>
      if s.point = .accepting then some { s with point := .ended e } else none
    | .retry => none
    | .finish task _ =>
      if task ∈ s.running then some { s with running := s.running.erase task } else none

/-- All that a turn of a loop over slots can do. -/
theorem boundedStep_cases {onError : Loop → IoError → Loop} {s s' : Loop} {event : Event}
    (h : boundedStep onError s event = some s') :
    (event = .acquire ∧ s.point = .acquiring ∧ 0 < s.free ∧
      s' = { s with free := s.free - 1, point := .accepting }) ∨
    (event = .accept (.ok ()) ∧ s.point = .accepting ∧ s' = s.spawn .acquiring) ∨
    (∃ e, event = .accept (.error e) ∧ s.point = .accepting ∧ s' = onError s e) ∨
    (event = .retry ∧ s.point = .pausing ∧
      s' = { s with free := s.free + 1, point := .acquiring }) ∨
    (∃ task exit, event = .finish task exit ∧ task ∈ s.running ∧
      s' = { s with free := s.free + 1, running := s.running.erase task }) := by
  match event with
  | .acquire =>
    obtain ⟨⟨hpoint, hfree⟩, heq⟩ := Option.ite_none_right_eq_some.mp h
    exact .inl ⟨rfl, hpoint, hfree, (Option.some.inj heq).symm⟩
  | .accept (.ok ()) =>
    obtain ⟨hpoint, heq⟩ := Option.ite_none_right_eq_some.mp h
    exact .inr (.inl ⟨rfl, hpoint, (Option.some.inj heq).symm⟩)
  | .accept (.error e) =>
    obtain ⟨hpoint, heq⟩ := Option.ite_none_right_eq_some.mp h
    exact .inr (.inr (.inl ⟨e, rfl, hpoint, (Option.some.inj heq).symm⟩))
  | .retry =>
    obtain ⟨hpoint, heq⟩ := Option.ite_none_right_eq_some.mp h
    exact .inr (.inr (.inr (.inl ⟨rfl, hpoint, (Option.some.inj heq).symm⟩)))
  | .finish task exit =>
    obtain ⟨hmem, heq⟩ := Option.ite_none_right_eq_some.mp h
    exact .inr (.inr (.inr (.inr ⟨task, exit, rfl, hmem, (Option.some.inj heq).symm⟩)))

/-- Every slot is free, held by the loop, or held by a task. -/
def Conserved (maxConnections : Nat) (s : Loop) : Prop :=
  s.free + s.held + s.running.length = maxConnections

/-- A loop whose way to fail loses no slot never loses one. -/
theorem boundedStep_conserved {maxConnections : Nat} {onError : Loop → IoError → Loop}
    (honError : ∀ s e, s.point = .accepting → Conserved maxConnections s →
      Conserved maxConnections (onError s e))
    (s : Loop) (event : Event) (s' : Loop) (h : boundedStep onError s event = some s')
    (hs : Conserved maxConnections s) : Conserved maxConnections s' := by
  rcases boundedStep_cases h with ⟨_, hpoint, hfree, rfl⟩ | ⟨_, hpoint, rfl⟩ |
    ⟨e, _, hpoint, rfl⟩ | ⟨_, hpoint, rfl⟩ | ⟨task, _, _, hmem, rfl⟩
  · simp only [Conserved, Loop.held, hpoint] at hs ⊢
    omega
  · simp only [Conserved, Loop.held, Loop.spawn, hpoint, List.length_cons] at hs ⊢
    omega
  · exact honError s e hpoint hs
  · simp only [Conserved, Loop.held, hpoint] at hs ⊢
    omega
  · have hpos := List.length_pos_of_mem hmem
    simp only [Conserved, Loop.held, List.length_erase_of_mem hmem] at hs ⊢
    omega

theorem pause_conserved {maxConnections : Nat} (s : Loop) (e : IoError)
    (hpoint : s.point = .accepting) (h : Conserved maxConnections s) :
    Conserved maxConnections (pause s e) := by
  simpa only [Conserved, Loop.held, pause, hpoint] using h

theorem stop_conserved {maxConnections : Nat} (s : Loop) (e : IoError)
    (hpoint : s.point = .accepting) (h : Conserved maxConnections s) :
    Conserved maxConnections (stop s e) := by
  simp only [Conserved, Loop.held, stop, hpoint] at h ⊢
  omega

/-- The work of a loop is bounded, and its slots come back. -/
structure SlotsKept (maxConnections : Nat) (s : Loop) : Prop where
  conserved : s.free + s.held + s.running.length = maxConnections
  bounded : s.running.length ≤ maxConnections
  returned : s.running = [] → s.free + s.held = maxConnections

theorem Conserved.slotsKept {maxConnections : Nat} {s : Loop} (h : Conserved maxConnections s) :
    SlotsKept maxConnections s where
  conserved := h
  bounded := by
    simp only [Conserved] at h
    omega
  returned := by
    intro hnil
    simpa [Conserved, hnil] using h

theorem slotsKept_of_reachable {maxConnections : Nat} {onError : Loop → IoError → Loop}
    (honError : ∀ s e, s.point = .accepting → Conserved maxConnections s →
      Conserved maxConnections (onError s e)) {s : Loop}
    (h : System.Reachable ⟨⟨maxConnections, .acquiring, [], 0⟩, boundedStep onError⟩ s) :
    SlotsKept maxConnections s := by
  have hinit : Conserved maxConnections ⟨maxConnections, .acquiring, [], 0⟩ := by
    simp [Conserved, Loop.held]
  exact (h.invariant hinit (boundedStep_conserved honError)).slotsKept

/-- No loop over slots loses one, in whatever order things happen. -/
theorem slots_kept (maxConnections : Nat) :
    (∀ s, (serveNscd maxConnections).Reachable s → SlotsKept maxConnections s) ∧
    (∀ s, (serveTcp maxConnections).Reachable s → SlotsKept maxConnections s) ∧
    (∀ s, (serveUdp maxConnections).Reachable s → SlotsKept maxConnections s) :=
  ⟨fun _ h => slotsKept_of_reachable pause_conserved h,
    fun _ h => slotsKept_of_reachable pause_conserved h,
    fun _ h => slotsKept_of_reachable stop_conserved h⟩

/-- An `accept()` that fails, a connection that is served, and a task that panics. -/
theorem slots_kept_after_panic :
    SlotsKept 2 ⟨2, .acquiring, [], 1⟩ ∧ SlotsKept 2 ⟨1, .accepting, [], 1⟩ ∧
      SlotsKept 2 ⟨2, .ended (.os 12), [], 1⟩ := by
  obtain ⟨hnscd, htcp, hudp⟩ := slots_kept 2
  refine ⟨hnscd _ ⟨[.acquire, .accept (.error (.os 24)), .retry, .acquire, .accept (.ok ()),
    .finish 0 .panicked], by decide⟩, htcp _ ⟨[.acquire, .accept (.ok ()), .acquire,
    .finish 0 (.failed (.os 32))], by decide⟩, hudp _ ⟨[.acquire, .accept (.ok ()), .acquire,
    .accept (.error (.os 12)), .finish 0 .returned], by decide⟩⟩

end Deezns.Listeners
