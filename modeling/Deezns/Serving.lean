import Deezns.DnsTcp
import Deezns.Exchange
import Deezns.Lifetime
import Deezns.NscdFrontend
import Deezns.Questions
import Deezns.Sessions
import Deezns.Tasks

/-!
# What the listeners serve

The loops of the listeners, with what they accept and what their tasks do. Each
connection or datagram is served by one task, from what came on it and no other,
and what is sent in return goes back on it.
-/
namespace Deezns.Listeners

open Octets (Bytes NativeEndian)

def duty : Event → Duty
  | .accept (.ok ()) => .takes
  | .finish task _ => .finishes task
  | _ => .none

theorem boundedStep_duty (onError : Loop → IoError → Loop)
    (honError : ∀ s e, (onError s e).running = s.running ∧ (onError s e).accepted = s.accepted)
    {s s' : Loop} {event : Event} (h : boundedStep onError s event = some s') :
    match duty event with
    | .takes => s'.running = s.accepted :: s.running ∧ s'.accepted = s.accepted + 1
    | .finishes task =>
      task ∈ s.running ∧ s'.running = s.running.erase task ∧ s'.accepted = s.accepted
    | .none => s'.running = s.running ∧ s'.accepted = s.accepted := by
  rcases boundedStep_cases h with ⟨rfl, _, _, rfl⟩ | ⟨rfl, _, rfl⟩ | ⟨e, rfl, _, rfl⟩ |
    ⟨rfl, _, rfl⟩ | ⟨task, exit, rfl, hmem, rfl⟩
  · exact ⟨rfl, rfl⟩
  · exact ⟨rfl, rfl⟩
  · exact honError s e
  · exact ⟨rfl, rfl⟩
  · exact ⟨hmem, rfl, rfl⟩

theorem servePolicySocket_duty {s s' : Loop} {event : Event}
    (h : servePolicySocket.step s event = some s') :
    match duty event with
    | .takes => s'.running = s.accepted :: s.running ∧ s'.accepted = s.accepted + 1
    | .finishes task =>
      task ∈ s.running ∧ s'.running = s.running.erase task ∧ s'.accepted = s.accepted
    | .none => s'.running = s.running ∧ s'.accepted = s.accepted := by
  match event with
  | .accept (.ok ()) =>
    obtain ⟨_, heq⟩ := Option.ite_none_right_eq_some.mp h
    cases heq
    exact ⟨rfl, rfl⟩
  | .accept (.error e) =>
    obtain ⟨_, heq⟩ := Option.ite_none_right_eq_some.mp h
    cases heq
    exact ⟨rfl, rfl⟩
  | .finish task exit =>
    obtain ⟨hmem, heq⟩ := Option.ite_none_right_eq_some.mp h
    cases heq
    exact ⟨hmem, rfl, rfl⟩

/-- The loop of a listener takes up what it accepts. -/
def dispatcher (maxConnections : Nat) (listener : Listener) : Dispatcher Loop Event where
  toSystem := listener.serve maxConnections
  duty := duty
  running := Loop.running
  taken := Loop.accepted
  running_init := by cases listener <;> rfl
  taken_init := by cases listener <;> rfl
  step_duty := by
    intro s event s' h
    cases listener with
    | policySocket => exact servePolicySocket_duty h
    | nscd => exact boundedStep_duty pause (fun _ _ => ⟨rfl, rfl⟩) h
    | dnsUdp => exact boundedStep_duty stop (fun _ _ => ⟨rfl, rfl⟩) h
    | dnsTcp => exact boundedStep_duty pause (fun _ _ => ⟨rfl, rfl⟩) h
  finish task := .finish task .returned
  duty_finish _ := rfl
  step_finish := by
    intro s task hmem
    cases listener with
    | policySocket => exact ⟨_, if_pos hmem⟩
    | nscd => exact ⟨_, if_pos hmem⟩
    | dnsUdp => exact ⟨_, if_pos hmem⟩
    | dnsTcp => exact ⟨_, if_pos hmem⟩

/-- What a listener accepts: a connection, with what the client sends on it and
where it comes from, or a datagram. -/
abbrev Job : Listener → Type
  | .policySocket => Except IoError Caller × Lines
  | .nscd => Except IoError Caller × Stream
  | .dnsUdp => SocketAddr × Bytes
  | .dnsTcp => SocketAddr × Stream

/-- How far a task gets that does not come to its end. -/
structure Cut where
  written : Nat
  effects : Nat

/-- What a task finds around it. -/
abbrev Seen : Listener → Type
  | .policySocket => Cut
  | .nscd => Nscd.Upstream × Cut
  | .dnsUdp => (Dns.Upstream × Option ProcFs) × Cut
  | .dnsTcp => Dns.Around × Cut

/-- What a task sends: bytes on its connection, or datagrams. -/
abbrev Sent : Listener → Type
  | .policySocket => Bytes
  | .nscd => Bytes
  | .dnsUdp => List (Bytes × SocketAddr)
  | .dnsTcp => Bytes

/-- All that a task does, if it returns; else the front of it. -/
def upTo {α : Type} (event : Event) (cut : Cut) (m : Effect (List α)) : Effect (List α) :=
  match event with
  | .finish _ .returned => m
  | _ => ⟨m.value.take cut.written, m.trace.take cut.effects⟩

/-- What `main` has put together for its listeners. -/
structure Parts (cel : Cel) where
  json : Daemon.Json
  engine : PolicyEngine cel
  relays : Relays
  front : Dns.Frontend cel
  server : SocketAddr

def Reply.written : Nscd.Reply → Bytes
  | .bytes bytes => bytes
  | .close => []

section
variable [NativeEndian] {cel : Cel} (parts : Parts cel)

/-- The tasks of the listeners. -/
def work : (listener : Listener) → Job listener → Seen listener → Event → Effect (Sent listener)
  | .policySocket, (caller, lines), cut, event =>
    match caller with
    | .error _ => return []
    | .ok caller =>
      let answers := Daemon.handleConnection parts.json parts.engine parts.relays caller lines
      upTo event cut (return answers.1.flatten)
  | .nscd, (caller, stream), (upstream, cut), event =>
    match caller with
    | .error _ => return []
    | .ok caller =>
      upTo event cut (do return Reply.written (← Nscd.handle parts.engine upstream stream caller))
  | .dnsUdp, (peer, datagram), ((upstream, proc), cut), event =>
    upTo event cut
      (parts.front.serveDatagram upstream proc (datagram.take Dns.maxMessage) peer parts.server)
  | .dnsTcp, (peer, stream), (around, cut), event =>
    upTo event cut (do
      return (← parts.front.serveTcpConnection around stream peer parts.server).1)

/-- A listener that serves. -/
def serving (maxConnections : Nat) (listener : Listener) :
    System (Dispatcher.Books Loop (Job listener) (Effect (Sent listener)))
      (Dispatcher.Event Event (Job listener) (Seen listener)) :=
  (dispatcher maxConnections listener).serving (work parts listener)

variable {parts}

/-- With its contents, too, a listener keeps its slots. -/
theorem serving_slotsKept {maxConnections : Nat} {listener : Listener}
    (hslots : listener ≠ .policySocket)
    {s : Dispatcher.Books Loop (Job listener) (Effect (Sent listener))}
    (h : (serving parts maxConnections listener).Reachable s) :
    SlotsKept maxConnections s.control := by
  have hplain : (listener.serve maxConnections).Reachable s.control :=
    (Dispatcher.plain (dispatcher maxConnections listener) (work parts listener)).reachable h
  cases listener with
  | policySocket => exact absurd rfl hslots
  | nscd => exact slotsKept_of_reachable pause_conserved hplain
  | dnsUdp => exact slotsKept_of_reachable stop_conserved hplain
  | dnsTcp => exact slotsKept_of_reachable pause_conserved hplain

end

section
variable {cel : Cel}

/-- Over UDP a reply has the id of its message. -/
theorem take_two_respond_udp (front : Dns.Frontend cel) (upstream : Dns.Upstream)
    (proc : Option ProcFs) (message : Bytes) (peer server : SocketAddr)
    (h : 2 ≤ message.length) :
    (front.respond upstream proc message peer .udp server).value.take 2 = message.take 2 := by
  rcases front.value_respond_cases upstream proc message peer .udp server with
    ⟨e, hparse, hvalue⟩ | ⟨query, hparse, ⟨_, hvalue⟩ | ⟨_, hvalue | hvalue⟩⟩
  · rw [hvalue, Dns.take_two_formerr message h]
  · rw [hvalue]
    cases hreply : Dns.upstreamReply upstream message .udp with
    | none => exact Dns.Query.take_two_response_of_parse hparse _ _ _
    | some reply => exact Dns.take_two_of_upstreamReply_udp hreply
  · rw [hvalue, Dns.Query.nxdomain, Dns.Query.take_two_response_of_parse hparse]
  · rw [hvalue, Dns.Query.answer, Dns.Query.take_two_response_of_parse hparse]

/-- A task that serves a datagram sends its peer the reply to it, or nothing. -/
def Answer (front : Dns.Frontend cel) (server : SocketAddr) (job : SocketAddr × Bytes)
    (sent : List (Bytes × SocketAddr)) : Prop :=
  sent = [] ∨ ∃ upstream proc reply, sent = [(reply, job.1)] ∧
    reply = (front.respond upstream proc (job.2.take Dns.maxMessage) job.1 .udp server).value ∧
    (2 ≤ job.2.length → reply.take 2 = job.2.take 2)

theorem answer_serveDatagram (front : Dns.Frontend cel) (upstream : Dns.Upstream)
    (proc : Option ProcFs) (server : SocketAddr) (job : SocketAddr × Bytes) :
    Answer front server job (front.serveDatagram upstream proc (job.2.take Dns.maxMessage) job.1
      server).value := by
  refine .inr ⟨upstream, proc, _, rfl, rfl, fun hlen => ?_⟩
  have hid := take_two_respond_udp front upstream proc (job.2.take Dns.maxMessage) job.1 server
    (by rw [List.length_take, Dns.maxMessage]; omega)
  rwa [List.take_take, Nat.min_eq_left (by decide)] at hid

theorem answer_of_length_le_one {front : Dns.Frontend cel} {server : SocketAddr}
    {job : SocketAddr × Bytes} {sent : List (Bytes × SocketAddr)} (n : Nat)
    (h : Answer front server job sent) : Answer front server job (sent.take n) := by
  rcases h with rfl | ⟨upstream, proc, reply, rfl, hrest⟩
  · exact .inl List.take_nil
  · cases n with
    | zero => exact .inl rfl
    | succ n => exact .inr ⟨upstream, proc, reply, by simp, hrest⟩

theorem answer_work [NativeEndian] (parts : Parts cel) (job : SocketAddr × Bytes)
    (seen : Seen .dnsUdp) (event : Event) :
    Answer parts.front parts.server job (work parts .dnsUdp job seen event).value := by
  have hwhole := answer_serveDatagram parts.front seen.1.1 seen.1.2 parts.server job
  simp only [work, upTo]
  split
  · exact hwhole
  · exact answer_of_length_le_one _ hwhole

theorem Answer.countP_le {front : Dns.Frontend cel} {server : SocketAddr}
    {job : SocketAddr × Bytes} {sent : List (Bytes × SocketAddr)} (h : Answer front server job sent)
    (peer : SocketAddr) :
    sent.countP (fun datagram => datagram.2 = peer) ≤ [job.1].countP (fun addr => addr = peer) := by
  rcases h with rfl | ⟨_, _, reply, rfl, _⟩
  · exact Nat.zero_le _
  · simp only [List.countP_singleton, le_refl]

/-- The datagrams that were sent. -/
def datagrams (s : Dispatcher.Books Loop (SocketAddr × Bytes)
    (Effect (List (Bytes × SocketAddr)))) : List (Bytes × SocketAddr) :=
  s.results.flatMap (fun result => result.2.value)

/-- Every datagram that was taken up has a task, which has sent its peer one
reply to it or none, and no address is sent more than came from it. -/
structure EachAnswered (parts : Parts cel) (maxConnections : Nat)
    (s : Dispatcher.Books Loop (SocketAddr × Bytes) (Effect (List (Bytes × SocketAddr)))) :
    Prop where
  bounded : s.control.running.length ≤ maxConnections
  tasks : (s.results.map Prod.fst ++ s.control.running).Perm (List.range s.jobs.length)
  answers : ∀ result ∈ s.results, ∃ job, s.jobs[result.1]? = some job ∧
    Answer parts.front parts.server job result.2.value
  fair : ∀ peer, (datagrams s).countP (fun datagram => datagram.2 = peer) ≤
    s.jobs.countP (fun job => job.1 = peer)

theorem eachAnswered_of_reachable [NativeEndian] {parts : Parts cel} {maxConnections : Nat}
    {s : Dispatcher.Books Loop (SocketAddr × Bytes) (Effect (List (Bytes × SocketAddr)))}
    (h : (serving parts maxConnections .dnsUdp).Reachable s) :
    EachAnswered parts maxConnections s := by
  have hinOrder := Dispatcher.inOrder_of_reachable h
  have hanswers : ∀ result ∈ s.results, ∃ job, s.jobs[result.1]? = some job ∧
      Answer parts.front parts.server job result.2.value := by
    intro result hmem
    obtain ⟨job, seen, event, hjob, _, heq⟩ := hinOrder.worked result hmem
    exact ⟨job, hjob, heq ▸ answer_work parts job seen event⟩
  refine ⟨(serving_slotsKept (by decide) h).bounded, hinOrder.tasks, hanswers, fun peer => ?_⟩
  have hsum := hinOrder.sum_results_le
    (f := fun sent => sent.value.countP (fun datagram => datagram.2 = peer))
    (g := fun job => [job.1].countP (fun addr => addr = peer)) (by
      intro result hmem job hjob
      obtain ⟨job', hjob', hanswer⟩ := hanswers result hmem
      cases hjob.symm.trans hjob'
      exact hanswer.countP_le peer)
  have hjobs := List.countP_flatMap (p := fun addr => decide (addr = peer)) (l := s.jobs)
    (f := fun job => [job.1])
  rw [← List.map_eq_flatMap, List.countP_map] at hjobs
  rw [datagrams, List.countP_flatMap]
  exact hsum.trans_eq hjobs.symm

/-- In whatever order datagrams come and tasks end, each one that is taken up, in
its turn, has one task, and that sends its peer one reply to it or none; the
tasks that still run can all come to send theirs. -/
theorem serveUdp_answers_each [NativeEndian] (parts : Parts cel) (maxConnections : Nat)
    (events : List (Dispatcher.Event Event (SocketAddr × Bytes) (Seen .dnsUdp)))
    (s : Dispatcher.Books Loop (SocketAddr × Bytes) (Effect (List (Bytes × SocketAddr))))
    (h : (serving parts maxConnections .dnsUdp).run
      (serving parts maxConnections .dnsUdp).init events = some s) :
    EachAnswered parts maxConnections s ∧
    s.jobs ++ s.queue = events.filterMap Dispatcher.Event.arrived ∧
    ∀ upstream proc, ∃ events' t, (serving parts maxConnections .dnsUdp).run s events' = some t ∧
      EachAnswered parts maxConnections t ∧ t.control.running = [] ∧ t.jobs = s.jobs ∧
      ∀ task ∈ s.control.running, ∃ job, s.jobs[task]? = some job ∧
        (task, parts.front.serveDatagram upstream proc (job.2.take Dns.maxMessage) job.1
          parts.server) ∈ t.results := by
  refine ⟨eachAnswered_of_reachable ⟨events, h⟩, Dispatcher.queue_run h, ?_⟩
  intro upstream proc
  have hinOrder := Dispatcher.inOrder_of_reachable ⟨events, h⟩
  obtain ⟨events', t, hrun, hempty, hjobs, -, hresults⟩ :=
    Dispatcher.exists_drained (((upstream, proc), ⟨0, 0⟩) : Seen .dnsUdp) hinOrder.counted
  have hreachable : (serving parts maxConnections .dnsUdp).Reachable t :=
    ⟨events ++ events', System.run_append_of_run h hrun⟩
  refine ⟨events', t, hrun, eachAnswered_of_reachable hreachable, hempty, hjobs, ?_⟩
  intro task hmem
  have hlt : task < s.jobs.length :=
    List.mem_range.mp (hinOrder.tasks.subset (List.mem_append_right _ hmem))
  refine ⟨s.jobs[task], List.getElem?_eq_getElem hlt, ?_⟩
  rw [hresults]
  refine List.mem_append_right _ (List.mem_filterMap.mpr ⟨task, hmem, ?_⟩)
  rw [Dispatcher.planned, List.getElem?_eq_getElem hlt]
  rfl

end

/-- The small policy, behind all listeners. -/
def testParts : Parts Cel.direct where
  json := Daemon.Json.plain
  engine := PolicyEngine.testEngine
  relays := ⟨∅⟩
  front := Dns.Frontend.testFront
  server := ⟨loopback, 53⟩

/-- Two clients, of which the second one is replied to first. -/
def overtaking : List (Dispatcher.Event Event (SocketAddr × Bytes) (Seen .dnsUdp)) :=
  [.arrive (⟨loopback, 5000⟩, Dns.Frontend.testQuery), .arrive (⟨loopback, 5001⟩, [0, 7]),
    .turn .acquire ((⟨.stall, .connectStall⟩, none), ⟨0, 0⟩),
    .turn (.accept (.ok ())) ((⟨.stall, .connectStall⟩, none), ⟨0, 0⟩),
    .turn .acquire ((⟨.stall, .connectStall⟩, none), ⟨0, 0⟩),
    .turn (.accept (.ok ())) ((⟨.stall, .connectStall⟩, none), ⟨0, 0⟩),
    .turn (.finish 1 .returned) ((⟨.stall, .connectStall⟩, none), ⟨0, 0⟩),
    .turn (.finish 0 .returned) ((⟨.stall, .connectStall⟩, none), ⟨0, 0⟩)]

theorem serveUdp_answers_each_overtaking :
    ∃ s, (@serving Nscd.littleEndian _ testParts 2 .dnsUdp).run
        (@serving Nscd.littleEndian _ testParts 2 .dnsUdp).init overtaking = some s ∧
      EachAnswered testParts 2 s ∧
      datagrams s = [(Dns.formerr [0, 7], ⟨loopback, 5001⟩),
        (Dns.testParsed.servfail, ⟨loopback, 5000⟩)] :=
  ⟨_, rfl, (@serveUdp_answers_each _ Nscd.littleEndian testParts 2 overtaking _ rfl).1, by decide⟩

end Deezns.Listeners
