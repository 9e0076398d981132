import Deezns.Listeners

/-!
# The lifetime of the daemon

The daemon runs as long as all of its listeners do: `main` waits for the first
one to be over and returns with its error. The listeners that retry a failed
`accept()` never are; one failure ends the policy socket's and the one for DNS
over UDP, and with it all others.
-/
namespace Deezns.Listeners

inductive Listener where
  | policySocket | nscd | dnsUdp | dnsTcp
  deriving DecidableEq, Repr

/-- The policy socket is always open, the others where they are enabled. -/
def Listener.enabled (cfg : PolicyConfig) : Listener → Bool
  | .policySocket => true
  | .nscd => cfg.nscd.isSome
  | .dnsUdp => cfg.dns.isSome
  | .dnsTcp => cfg.dns.isSome

def Listener.serve (maxConnections : Nat) : Listener → System Loop Event
  | .policySocket => servePolicySocket
  | .nscd => serveNscd maxConnections
  | .dnsUdp => serveUdp maxConnections
  | .dnsTcp => serveTcp maxConnections

/-- The tasks `main` spawns; a listener that is not enabled does nothing. -/
def tasks (cfg : PolicyConfig) (maxConnections : Nat) (listener : Listener) :
    System Loop Event :=
  (listener.serve maxConnections).haltingAt (fun _ => !listener.enabled cfg)

/-- `dns::Frontend::serve`: a `try_join!`, over as soon as one of the two fails. -/
def serveDns (s : Listener → Loop) : Option IoError := (s .dnsUdp).result.or (s .dnsTcp).result

/-- `join_next`: the error of the first task that is over. -/
def joinNext (s : Listener → Loop) : Option IoError :=
  (s .policySocket).result.or ((s .nscd).result.or (serveDns s))

/-- The daemon, with its listeners in any order, until `join_next` completes. -/
def main (cfg : PolicyConfig) (maxConnections : Nat) :
    System (Listener → Loop) ((_ : Listener) × Event) :=
  (System.interleave (tasks cfg maxConnections)).haltingAt (fun s => (joinNext s).isSome)

theorem joinNext_eq_none_iff (s : Listener → Loop) :
    joinNext s = none ↔ ∀ listener, (s listener).result = none := by
  simp only [joinNext, serveDns, Option.or_eq_none_iff]
  constructor
  · rintro ⟨hsocket, hnscd, hudp, htcp⟩ listener
    cases listener with
    | policySocket => exact hsocket
    | nscd => exact hnscd
    | dnsUdp => exact hudp
    | dnsTcp => exact htcp
  · intro h
    exact ⟨h _, h _, h _, h _⟩

/-- An event that ends the loop of a listener. -/
def Fatal (listener : Listener) (event : Event) : Prop :=
  (listener = .policySocket ∨ listener = .dnsUdp) ∧ ∃ e, event = .accept (.error e)

/-- Only a failure to accept can end a loop over slots. -/
theorem boundedStep_result_iff {onError : Loop → IoError → Loop} {s s' : Loop} {event : Event}
    (h : boundedStep onError s event = some s') :
    s'.result ≠ none ↔
      s.result ≠ none ∨ ∃ e, event = .accept (.error e) ∧ (onError s e).result ≠ none := by
  rcases boundedStep_cases h with ⟨rfl, hpoint, _, rfl⟩ | ⟨rfl, hpoint, rfl⟩ |
    ⟨e, rfl, hpoint, rfl⟩ | ⟨rfl, hpoint, rfl⟩ | ⟨task, exit, rfl, _, rfl⟩
  · simp [Loop.result, hpoint]
  · simp [Loop.result, Loop.spawn, hpoint]
  · simp [Loop.result, hpoint]
  · simp [Loop.result, hpoint]
  · simp [Loop.result]

theorem servePolicySocket_result_iff {s s' : Loop} {event : Event}
    (h : servePolicySocket.step s event = some s') :
    s'.result ≠ none ↔ s.result ≠ none ∨ ∃ e, event = .accept (.error e) := by
  match event with
  | .accept (.ok ()) =>
    obtain ⟨hpoint, heq⟩ := Option.ite_none_right_eq_some.mp h
    cases heq
    simp [Loop.result, Loop.spawn, hpoint]
  | .accept (.error e) =>
    obtain ⟨hpoint, heq⟩ := Option.ite_none_right_eq_some.mp h
    cases heq
    simp [Loop.result]
  | .finish task exit =>
    obtain ⟨_, heq⟩ := Option.ite_none_right_eq_some.mp h
    cases heq
    simp [Loop.result]

theorem serve_result_iff (maxConnections : Nat) (listener : Listener) {s s' : Loop}
    {event : Event} (h : (listener.serve maxConnections).step s event = some s') :
    s'.result ≠ none ↔ s.result ≠ none ∨ Fatal listener event := by
  cases listener with
  | policySocket => simpa [Fatal] using servePolicySocket_result_iff h
  | nscd =>
    rw [boundedStep_result_iff h]
    simp [Fatal, pause, Loop.result]
  | dnsUdp =>
    rw [boundedStep_result_iff h]
    simp [Fatal, stop, Loop.result]
  | dnsTcp =>
    rw [boundedStep_result_iff h]
    simp [Fatal, pause, Loop.result]

theorem tasks_result_iff (cfg : PolicyConfig) (maxConnections : Nat) (listener : Listener)
    (s : Loop) (event : Event) (s' : Loop)
    (h : (tasks cfg maxConnections listener).step s event = some s') :
    s'.result ≠ none ↔ s.result ≠ none ∨ Fatal listener event :=
  serve_result_iff maxConnections listener ((System.step_haltingAt_eq_some_iff _ s s' event).mp h).2

theorem tasks_init_result (cfg : PolicyConfig) (maxConnections : Nat) (listener : Listener) :
    (tasks cfg maxConnections listener).init.result = none := by
  cases listener <;> rfl

/-- In the daemon as a whole, too, no listener loses a slot. -/
theorem main_slotsKept (cfg : PolicyConfig) (maxConnections : Nat) (s : Listener → Loop)
    (h : (main cfg maxConnections).Reachable s) (listener : Listener)
    (hslots : listener ≠ .policySocket) : SlotsKept maxConnections (s listener) := by
  have halone : (listener.serve maxConnections).Reachable (s listener) :=
    (h.of_haltingAt.component listener).of_haltingAt
  cases listener with
  | policySocket => exact absurd rfl hslots
  | nscd => exact slotsKept_of_reachable pause_conserved halone
  | dnsUdp => exact slotsKept_of_reachable stop_conserved halone
  | dnsTcp => exact slotsKept_of_reachable pause_conserved halone

/-- The daemon goes on, with all its listeners, as long as no `accept()` on the
policy socket and no `recv_from()` for DNS fails, and no longer. -/
theorem listeners_survive_iff (cfg : PolicyConfig) (maxConnections : Nat)
    (events : List ((_ : Listener) × Event)) (s : Listener → Loop)
    (h : (main cfg maxConnections).run (main cfg maxConnections).init events = some s) :
    ((∀ listener, (s listener).result = none) ∧ joinNext s = none) ↔
      ∀ event ∈ events, ¬ Fatal event.1 event.2 := by
  have hended : (∃ listener, (s listener).result ≠ none) ↔
      ∃ event ∈ events, Fatal event.1 event.2 := by
    have hrun := System.run_iff_of_step_iff
      (System.step_interleave_exists_iff (tasks_result_iff cfg maxConnections))
      (System.run_of_run_haltingAt h)
    have hinit : ¬ ∃ listener, (tasks cfg maxConnections listener).init.result ≠ none := by
      simp [tasks_init_result]
    rw [hrun]
    exact or_iff_right hinit
  rw [joinNext_eq_none_iff, and_self]
  rw [← not_iff_not]
  simpa using hended

/-- A daemon with a front-end for nscd and one for DNS. -/
def testConfig : PolicyConfig where
  defaultVerdict := .passthrough
  blocklists := []
  rules := []
  nscdUser := some "nscd".toList
  nscdFrontend := some ⟨true, "/run/nscd/socket".toList, "/run/nsncd/socket".toList⟩
  dnsFrontend := some ⟨true, ⟨.unspecifiedV4, 53⟩, none, 5000, false⟩
  nssFrontend := none

/-- Both front-ends run out of descriptors, and one of them tries again. -/
def exhaustion : List ((_ : Listener) × Event) :=
  [⟨.nscd, .acquire⟩, ⟨.nscd, .accept (.error (.os 24))⟩, ⟨.dnsTcp, .acquire⟩,
    ⟨.dnsTcp, .accept (.error (.os 24))⟩, ⟨.nscd, .retry⟩]

theorem listeners_survive_exhaustion :
    ∃ s, (main testConfig 512).run (main testConfig 512).init exhaustion = some s ∧
      (∀ listener, (s listener).result = none) ∧ joinNext s = none := by
  refine ⟨_, rfl, (listeners_survive_iff testConfig 512 exhaustion _ rfl).mpr ?_⟩
  simp [exhaustion, Fatal]

/-- One `accept()` on the policy socket without a descriptor to spare, or one
`recv_from()` that fails, is the end of all of them. -/
theorem listeners_stop :
    ((main testConfig 512).run (main testConfig 512).init
      [⟨.policySocket, .accept (.error (.os 24))⟩]).map joinNext = some (some (.os 24)) ∧
    ((main testConfig 512).run (main testConfig 512).init
      [⟨.dnsUdp, .acquire⟩, ⟨.dnsUdp, .accept (.error (.os 12))⟩]).map joinNext =
        some (some (.os 12)) :=
  ⟨rfl, rfl⟩

end Deezns.Listeners
