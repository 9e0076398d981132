import Deezns.Mediation
import Deezns.Serving

/-!
# The daemon as a whole

All listeners at once, with what they accept and what their tasks do. Forgetting
the contents leaves the loops that `main` waits for. Whatever is sent upstream in
any run begins a message on the very connection or datagram its task serves, and the
policy lets it through for the caller the task makes out.
-/
namespace Deezns.Listeners

open Octets (Bytes NativeEndian)
open Framing (frame)

/-- The books of all listeners. -/
abbrev AllBooks : Type :=
  (listener : Listener) → Dispatcher.Books Loop (Job listener) (Effect (Sent listener))

abbrev AllEvents : Type :=
  (listener : Listener) × Dispatcher.Event Event (Job listener) (Seen listener)

def AllBooks.loops (s : AllBooks) : Listener → Loop := fun listener => (s listener).control

section
variable [NativeEndian] {cel : Cel}

/-- The tasks `main` spawns, with what comes to them. -/
def servers (cfg : PolicyConfig) (parts : Parts cel) (maxConnections : Nat)
    (listener : Listener) :
    System (Dispatcher.Books Loop (Job listener) (Effect (Sent listener)))
      (Dispatcher.Event Event (Job listener) (Seen listener)) :=
  (serving parts maxConnections listener).haltingAt (fun _ => !listener.enabled cfg)

/-- The daemon, until `join_next` completes. -/
def daemon (cfg : PolicyConfig) (parts : Parts cel) (maxConnections : Nat) :
    System AllBooks AllEvents :=
  (System.interleave (servers cfg parts maxConnections)).haltingAt
    (fun s => (joinNext (AllBooks.loops s)).isSome)

/-- Without what they serve, they are the loops of `main`. -/
def daemonLoops (cfg : PolicyConfig) (parts : Parts cel) (maxConnections : Nat) :
    Simulation (daemon cfg parts maxConnections) (main cfg maxConnections) :=
  (Simulation.interleave (fun listener =>
    (Dispatcher.plain (dispatcher maxConnections listener) (work parts listener)).haltingAt
      (fun _ => !listener.enabled cfg))).haltingAt (fun s => (joinNext s).isSome)

theorem servers_of_daemon {cfg : PolicyConfig} {parts : Parts cel} {maxConnections : Nat}
    {s : AllBooks} (h : (daemon cfg parts maxConnections).Reachable s) (listener : Listener) :
    (servers cfg parts maxConnections listener).Reachable (s listener) :=
  h.of_haltingAt.component listener

/-- A listener that is not enabled stays as it is. -/
theorem servers_of_disabled {cfg : PolicyConfig} {parts : Parts cel} {maxConnections : Nat}
    {listener : Listener} (hdisabled : listener.enabled cfg = false)
    {s : Dispatcher.Books Loop (Job listener) (Effect (Sent listener))}
    (h : (servers cfg parts maxConnections listener).Reachable s) :
    s = (servers cfg parts maxConnections listener).init := by
  refine h.invariant (P := fun s => s = (servers cfg parts maxConnections listener).init) rfl ?_
  intro s₁ event s₂ hstep _
  have hgoing := ((System.step_haltingAt_eq_some_iff _ s₁ s₂ event).mp hstep).1
  simp [hdisabled] at hgoing

end

theorem sentPieces_take_isPrefix (trace : List Deezns.Event) (n : Nat) :
    sentPieces (trace.take n) <+: sentPieces trace :=
  (List.take_prefix n trace).filterMap _

theorem sentPieces_upTo_isPrefix {α : Type} (event : Event) (cut : Cut) (m : Effect (List α)) :
    sentPieces (upTo event cut m).trace <+: sentPieces m.trace := by
  unfold upTo
  split
  · exact List.prefix_rfl
  · exact sentPieces_take_isPrefix _ _

section
variable {cel : Cel}

/-- Of each message on a connection that may be sent, given what is seen of its sender
when it comes, as much as its upstream takes. -/
def forwarded (parts : Parts cel) (peer : SocketAddr) (around : Dns.Around)
    (messages : List Bytes) : Bytes :=
  (messages.mapIdx (fun i message =>
    if parts.front.MaySend (around i).2 message peer .tcp parts.server then
      (around i).1.takes .tcp message
    else [])).flatten

/-- Message by message, what may be sent is sent. -/
theorem flatten_serveTcpMessages (parts : Parts cel) (peer : SocketAddr) (fuel : Nat)
    (around : Dns.Around) (stream : Stream) :
    ∃ messages rest, stream.bytes = messages.flatMap (frame 2) ++ rest ∧
      (∀ message ∈ messages, message.length ≤ Dns.maxMessage) ∧
      (sentPieces (parts.front.serveTcpMessages peer parts.server fuel around
        stream).trace).flatten = forwarded parts peer around messages := by
  induction fuel generalizing around stream with
  | zero => exact ⟨[], stream.bytes, rfl, by simp, rfl⟩
  | succ fuel ih =>
    rw [Dns.Frontend.serveTcpMessages]
    split
    · exact ⟨[], stream.bytes, rfl, by simp, rfl⟩
    · exact ⟨[], stream.bytes, rfl, by simp, rfl⟩
    · exact ⟨[], stream.bytes, rfl, by simp, rfl⟩
    next message rest hread =>
    obtain ⟨hframe, -⟩ := (Dns.readTcpMessage_eq_message_iff _ _ _).mp hread
    obtain ⟨hlen, hbytes⟩ := (Framing.takeFrame_eq_some_iff _ _ _ _).mp hframe
    obtain ⟨messages, rest', hrest, hlens, hsent⟩ := ih (fun i => around (i + 1)) rest
    have hfirst := (parts.front.mediated_respond (around 0).2 message peer .tcp parts.server
      (around 0).1).1.flatten_eq
    refine ⟨message :: messages, rest', ?_, ?_, ?_⟩
    · rw [hbytes, hrest, List.flatMap_cons, List.append_assoc]
    · rw [List.forall_mem_cons]
      exact ⟨by simp only [Dns.maxMessage]; omega, hlens⟩
    · simp only [Traced.trace_bind, Traced.trace_pure, List.append_nil, sentPieces_append,
        List.flatten_append, hfirst, hsent, forwarded, List.mapIdx_cons, List.flatten_cons]

end

section
variable [NativeEndian] {cel : Cel}

/-- A task may send so much upstream for its job, in the surroundings it finds: the
request or the datagram, if the policy, or a relay, lets it through, and of the messages
on a DNS connection, in their order, those that are let through. -/
def Permitted (parts : Parts cel) :
    (listener : Listener) → Job listener → Seen listener → List Bytes → Prop
  | .policySocket, _, _, pieces => pieces = []
  | .nscd, (caller, stream), _, pieces =>
    pieces = [] ∨ ∃ who request rest, caller = .ok who ∧
      Nscd.readRequest stream = some (.ok (request, rest)) ∧
      (request.ty.isHostLookup = true → Nscd.MaySend parts.engine request who) ∧
      pieces.flatten <+: request.raw
  | .dnsUdp, (peer, datagram), ((_, proc), _), pieces =>
    pieces = [] ∨ pieces = [datagram.take Dns.maxMessage] ∧
      parts.front.MaySend proc (datagram.take Dns.maxMessage) peer .udp parts.server
  | .dnsTcp, (peer, stream), (around, _), pieces =>
    ∃ messages rest, stream.bytes = messages.flatMap (frame 2) ++ rest ∧
      (∀ message ∈ messages, message.length ≤ Dns.maxMessage) ∧
      pieces.flatten <+: forwarded parts peer around messages

/-- A task may be cut short. -/
theorem Permitted.of_isPrefix {parts : Parts cel} {listener : Listener} {job : Job listener}
    {seen : Seen listener} {pieces pieces' : List Bytes} (hle : pieces' <+: pieces)
    (h : Permitted parts listener job seen pieces) :
    Permitted parts listener job seen pieces' := by
  have hflatten := hle.flatten
  cases listener with
  | policySocket =>
    obtain rfl : pieces = [] := h
    exact List.prefix_nil.mp hle
  | nscd =>
    rcases h with rfl | ⟨who, request, rest, hcaller, hread, hmay, hraw⟩
    · exact .inl (List.prefix_nil.mp hle)
    · exact .inr ⟨who, request, rest, hcaller, hread, hmay, hflatten.trans hraw⟩
  | dnsUdp =>
    rcases h with rfl | ⟨rfl, hmay⟩
    · exact .inl (List.prefix_nil.mp hle)
    · rcases List.prefix_cons_iff.mp hle with hnil | ⟨rest, hrest, hnil⟩
      · exact .inl hnil
      · rw [List.prefix_nil.mp hnil] at hrest
        exact .inr ⟨hrest, hmay⟩
  | dnsTcp =>
    obtain ⟨messages, rest, hbytes, hlens, hpieces⟩ := h
    exact ⟨messages, rest, hbytes, hlens, hflatten.trans hpieces⟩

theorem permitted_nscd (parts : Parts cel) (upstream : Nscd.Upstream) (cut : Cut)
    (stream : Stream) (who : Caller) :
    Permitted parts .nscd (.ok who, stream) (upstream, cut)
      (sentPieces (Nscd.handle parts.engine upstream stream who).trace) := by
  unfold Nscd.handle
  split
  · exact .inl rfl
  · exact .inl rfl
  next request rest hread =>
  have htakes := upstream.takes_isPrefix request.raw
  cases hhost : request.ty.isHostLookup with
  | true =>
    have hmediated := Nscd.mediated_replyFor parts.engine request who upstream hhost
    by_cases hsent : sentPieces (Nscd.replyFor parts.engine upstream request who).trace = []
    · exact .inl hsent
    · exact .inr ⟨who, request, rest, rfl, hread, fun _ => hmediated.permitted hsent,
        hmediated.flatten_isPrefix htakes⟩
  | false =>
    refine .inr ⟨who, request, rest, rfl, hread, fun htrue => ?_, ?_⟩
    · exact absurd (hhost.symm.trans htrue) Bool.false_ne_true
    · have htrace : sentPieces (Nscd.replyFor parts.engine upstream request who).trace =
          sentPieces (Nscd.forward upstream request).trace := by
        simp only [Nscd.replyFor, hhost, Bool.not_false, if_true, Traced.trace_bind,
          sentPieces_append]
        split <;> simp
      rw [htrace, Nscd.sentPieces_forward]
      exact htakes

theorem permitted_udp (parts : Parts cel) (upstream : Dns.Upstream) (proc : Option ProcFs)
    (cut : Cut) (peer : SocketAddr) (datagram : Bytes) :
    Permitted parts .dnsUdp (peer, datagram) ((upstream, proc), cut)
      (sentPieces (parts.front.serveDatagram upstream proc (datagram.take Dns.maxMessage) peer
        parts.server).trace) := by
  have htrace : (parts.front.serveDatagram upstream proc (datagram.take Dns.maxMessage) peer
      parts.server).trace = (parts.front.respond upstream proc (datagram.take Dns.maxMessage) peer
      .udp parts.server).trace := by simp [Dns.Frontend.serveDatagram]
  obtain ⟨hmediated, hudp⟩ := parts.front.mediated_respond proc (datagram.take Dns.maxMessage) peer
    .udp parts.server upstream
  rw [htrace]
  rcases hudp rfl with hnone | hone
  · exact .inl hnone
  · exact .inr ⟨hone, hmediated.permitted (by simp [hone])⟩

/-- A task sends upstream what its job allows in its surroundings, and no more. -/
theorem permitted_work (parts : Parts cel) (listener : Listener) (job : Job listener)
    (seen : Seen listener) (event : Event) :
    Permitted parts listener job seen (sentPieces (work parts listener job seen event).trace) := by
  cases listener with
  | policySocket =>
    obtain ⟨caller, lines⟩ := job
    cases caller with
    | error e => rfl
    | ok who => exact Permitted.of_isPrefix (sentPieces_upTo_isPrefix _ _ _) rfl
  | nscd =>
    obtain ⟨caller, stream⟩ := job
    cases caller with
    | error e => exact .inl rfl
    | ok who =>
      exact (permitted_nscd parts seen.1 seen.2 stream who).of_isPrefix
        ((sentPieces_upTo_isPrefix event seen.2 _).trans (by simp))
  | dnsUdp =>
    exact (permitted_udp parts seen.1.1 seen.1.2 seen.2 job.1 job.2).of_isPrefix
      (sentPieces_upTo_isPrefix _ _ _)
  | dnsTcp =>
    obtain ⟨messages, rest, hbytes, hlens, hsent⟩ :=
      flatten_serveTcpMessages parts job.1 (job.2.bytes.length + 1) seen.1 job.2
    have hcut : sentPieces (work parts .dnsTcp job seen event).trace <+:
        sentPieces (parts.front.serveTcpMessages job.1 parts.server (job.2.bytes.length + 1)
          seen.1 job.2).trace :=
      (sentPieces_upTo_isPrefix event seen.2 _).trans (by simp [Dns.Frontend.serveTcpConnection])
    exact ⟨messages, rest, hbytes, hlens, hsent ▸ hcut.flatten⟩

/-- In every run of the daemon its loops are those of `main`, and every listener
serves each connection or datagram it takes up with one task, which works on
nothing else. -/
theorem daemon_serves_each (cfg : PolicyConfig) (parts : Parts cel) (maxConnections : Nat)
    (events : List AllEvents) (s : AllBooks)
    (h : (daemon cfg parts maxConnections).run (daemon cfg parts maxConnections).init events =
      some s) :
    (main cfg maxConnections).run (main cfg maxConnections).init
      (events.filterMap (daemonLoops cfg parts maxConnections).event) = some s.loops ∧
    ∀ listener,
      (dispatcher maxConnections listener).InOrder (work parts listener) (s listener) ∧
      (listener ≠ .policySocket → SlotsKept maxConnections (s listener).control) ∧
      (listener.enabled cfg = false → (s listener).jobs = []) := by
  refine ⟨(daemonLoops cfg parts maxConnections).run_init h, fun listener => ?_⟩
  have hserver := servers_of_daemon ⟨events, h⟩ listener
  refine ⟨Dispatcher.inOrder_of_reachable hserver.of_haltingAt,
    fun hslots => serving_slotsKept hslots hserver.of_haltingAt, fun hdisabled => ?_⟩
  rw [servers_of_disabled hdisabled hserver]
  rfl

/-- What becomes of the connections or datagrams a listener has taken up depends on
what they bring and what their tasks find, and not on the order of events. -/
theorem serving_ignores_order (parts : Parts cel) (maxConnections : Nat) (listener : Listener)
    (plan : Nat → Job listener → Effect (Sent listener))
    (events events' : List (Dispatcher.Event Event (Job listener) (Seen listener)))
    (s s' : Dispatcher.Books Loop (Job listener) (Effect (Sent listener)))
    (h : (serving parts maxConnections listener).run
      (serving parts maxConnections listener).init events = some s)
    (h' : (serving parts maxConnections listener).run
      (serving parts maxConnections listener).init events' = some s')
    (hplan : ∀ event ∈ events,
      (dispatcher maxConnections listener).Follows (work parts listener) plan event)
    (hplan' : ∀ event ∈ events',
      (dispatcher maxConnections listener).Follows (work parts listener) plan event)
    (hjobs : s.jobs = s'.jobs) (hdone : s.control.running = []) (hdone' : s'.control.running = []) :
    s.results.Perm s'.results ∧
      s.results.Perm (s.jobs.mapIdx (fun task job => (task, plan task job))) := by
  have hperm := Dispatcher.results_perm h hplan
  have hperm' := Dispatcher.results_perm h' hplan'
  simp only [dispatcher, hdone, hdone', List.filterMap_nil, List.append_nil] at hperm hperm'
  rw [← hjobs] at hperm'
  exact ⟨hperm.trans hperm'.symm, hperm⟩

end

/-- The clients of the DNS front-end, while nscd's listener fails to accept. -/
def busy : List AllEvents :=
  ⟨.nscd, .turn .acquire (.connectStall, ⟨0, 0⟩)⟩ ::
    ⟨.nscd, .turn (.accept (.error (.os 24))) (.connectStall, ⟨0, 0⟩)⟩ ::
      overtaking.map (fun event => ⟨.dnsUdp, event⟩)

theorem daemon_serves_each_busy :
    ∃ s : AllBooks, (@daemon Nscd.littleEndian _ testConfig testParts 2).run
        (@daemon Nscd.littleEndian _ testConfig testParts 2).init busy = some s ∧
      SlotsKept 2 (s .dnsUdp).control ∧ (s .dnsUdp).results.map Prod.fst = [1, 0] :=
  ⟨_, rfl, ((@daemon_serves_each Nscd.littleEndian _ testConfig testParts 2 busy _ rfl).2
    .dnsUdp).2.1 (by decide), rfl⟩

/-- One query that is let through. -/
def letThrough : List AllEvents :=
  [⟨.dnsUdp, .arrive (⟨loopback, 5000⟩, Dns.Frontend.testQuery)⟩,
    ⟨.dnsUdp, .turn .acquire ((⟨.stall, .connectStall⟩, none), ⟨0, 0⟩)⟩,
    ⟨.dnsUdp, .turn (.accept (.ok ())) ((⟨.stall, .connectStall⟩, none), ⟨0, 0⟩)⟩,
    ⟨.dnsUdp, .turn (.finish 0 .returned) ((⟨.sent [] none, .connectStall⟩, none), ⟨0, 0⟩)⟩]

/-- The same two clients, replied to in their order. -/
def inTurn : List (Dispatcher.Event Event (SocketAddr × Bytes) (Seen .dnsUdp)) :=
  overtaking.take 6 ++ (overtaking.drop 6).reverse

theorem serving_ignores_order_overtaking :
    ∃ s s', (@serving Nscd.littleEndian _ testParts 2 .dnsUdp).run
        (@serving Nscd.littleEndian _ testParts 2 .dnsUdp).init overtaking = some s ∧
      (@serving Nscd.littleEndian _ testParts 2 .dnsUdp).run
        (@serving Nscd.littleEndian _ testParts 2 .dnsUdp).init inTurn = some s' ∧
      s.results.Perm s'.results := by
  let plan : Nat → SocketAddr × Bytes → Effect (List (Bytes × SocketAddr)) := fun _ job =>
    testParts.front.serveDatagram ⟨.stall, .connectStall⟩ none (job.2.take Dns.maxMessage) job.1
      testParts.server
  refine ⟨_, _, rfl, rfl, (@serving_ignores_order Nscd.littleEndian _ testParts 2 .dnsUdp plan
    overtaking inTurn _ _ rfl rfl ?_ ?_ rfl rfl rfl).1⟩
  · simp [overtaking, Dispatcher.Follows, dispatcher, duty, work, upTo, plan]
  · simp [inTurn, overtaking, Dispatcher.Follows, dispatcher, duty, work, upTo, plan]

end Deezns.Listeners
