import Deezns.DnsTcp
import Deezns.Exchange
import Deezns.Served

/-!
# Deadlines of the front-ends

A connection to the nscd front-end brings one request, one over TCP to the DNS
front-end as many as its client likes. Both wait for a request and for the
upstream with a deadline, and without one for the client to read its reply: a
client that does not holds its slot for as long as it likes. So does one of the DNS
front-end that reads its replies and asks on, once within each deadline.
-/
namespace Deezns

open Octets (Bytes NativeEndian)
open Framing (frame)
open Served (Conn Handler)

variable {cel : Cel}

namespace Nscd

section
variable [NativeEndian] (engine : PolicyEngine cel) (caller : Caller)
  (readTimeout upstreamTimeout : Nat)

/-- The real nscd is asked about a request. -/
def asksUpstream (request : Request) : Bool :=
  if request.ty.isHostLookup then
    match request.hostname with
    | none => false
    | some hostname => decide (LetsThrough hostname (engine.evaluateFor hostname caller))
  else true

/-- What the real nscd does is over at some time. -/
def Upstream.completes : Upstream → Bool
  | .connectError _ => true
  | .connectStall => false
  | .writeError _ _ => true
  | .writeStall _ => false
  | .answered stream => stream.ending != .stall

/-- `nscd::Frontend::handle`, wait by wait. -/
def served : Handler Request Unit Upstream where
  readTimeout := readTimeout
  upstreamTimeout := upstreamTimeout
  read stream := (readRequest stream).map (Except.map some)
  asks request _ := asksUpstream engine caller request
  completes _ upstream := upstream.completes
  silent := .connectStall
  reply request _ upstream :=
    match (replyFor engine upstream request caller).value with
    | .bytes bytes => some bytes
    | .close => none
  keeps := false

/-- Where the real nscd is not asked, it has no say. -/
theorem value_replyFor_of_not_asksUpstream {request : Request}
    (h : asksUpstream engine caller request = false) (upstream upstream' : Upstream) :
    (replyFor engine upstream request caller).value =
      (replyFor engine upstream' request caller).value := by
  unfold asksUpstream at h
  split at h
  · next hhost =>
    split at h
    · next hname =>
      rw [replyFor_of_no_name _ _ _ _ hhost hname, replyFor_of_no_name _ _ _ _ hhost hname]
    · next hostname hname =>
      rw [replyFor_of_name _ _ _ _ hhost hname, replyFor_of_name _ _ _ _ hhost hname]
      simp only [Traced.value_bind, PolicyEngine.value_ask]
      cases hdecision : (engine.evaluateFor hostname caller).decision hostname with
      | deny => rfl
      | answer addrs => rfl
      | forward =>
        have hthrough := (PolicyVerdict.decision_eq_forward_iff _ _).mp hdecision
        exact absurd hthrough (of_decide_eq_false h)
  · cases h

/-- What a connection is replied with is written, if it fits, without a wait
for anything but the real nscd. -/
theorem served_writes_handled {buffer : Nat} {bytes reply : Bytes} {upstream : Upstream}
    (hcompletes : upstream.completes = true) (hfits : reply.length ≤ buffer)
    (hreply : (handle engine upstream ⟨bytes, .stall⟩ caller).value = .bytes reply) :
    ∃ events s, ((served engine caller readTimeout upstreamTimeout).connection buffer).run
        ((served engine caller readTimeout upstreamTimeout).connection buffer).init
        (.send bytes :: events) = some s ∧
      s.phase = .closed ∧ s.outbox = reply ∧ s.now = 0 := by
  unfold handle at hreply
  split at hreply
  · cases hreply
  · cases hreply
  next request rest hread =>
  let sent : Conn Request Unit :=
    ⟨.awaitingRequest, some readTimeout, 0, ⟨bytes, .stall⟩, [], false⟩
  have hcomes : (served engine caller readTimeout upstreamTimeout).read sent.inbox =
      some (.ok (some (request, rest))) := by
    simp [served, sent, hread, Except.map]
  have hreplied : (served engine caller readTimeout upstreamTimeout).reply request () upstream =
      some reply := by
    simp [served, hreply]
  have hroom : sent.outbox.length + reply.length ≤ buffer := by simpa [sent] using hfits
  obtain ⟨events, hrun⟩ := Handler.run_of_reply rfl rfl hcomes hcompletes
    (fun hasks => by
      simp only [served]
      rw [value_replyFor_of_not_asksUpstream engine caller hasks .connectStall upstream])
    hreplied hroom
  refine ⟨events, _, (System.run_cons_eq_some_iff _ _ _ _).mpr ⟨sent, rfl, hrun⟩, ?_⟩
  simp [Handler.next, served, Conn.close, sent]

end

end Nscd

namespace Dns.Frontend

variable (front : Frontend cel) (peer server : SocketAddr) (readTimeout timeout : Nat)

/-- `dns::Frontend::serve_tcp_connection`, wait by wait. -/
def served : Handler Bytes (Option ProcFs) Upstream where
  readTimeout := readTimeout
  upstreamTimeout := timeout
  read := readTcpMessage
  asks message proc := decide (front.MaySend proc message peer .tcp server)
  completes message upstream := (forwardTcp upstream.tcp message).value.isSome
  silent := ⟨.stall, .connectStall⟩
  reply message proc upstream :=
    let reply := (front.respond upstream proc message peer .tcp server).value
    some (lengthPrefix reply ++ reply)
  keeps := true

/-- Where the upstream server is not asked, it has no say. -/
theorem value_respond_of_not_maySend {message : Bytes} {proc : Option ProcFs}
    (h : ¬ front.MaySend proc message peer .tcp server) (upstream upstream' : Upstream) :
    (front.respond upstream proc message peer .tcp server).value =
      (front.respond upstream' proc message peer .tcp server).value := by
  cases hparse : Query.parse message with
  | error e => rw [respond_of_error _ _ _ _ _ _ _ hparse, respond_of_error _ _ _ _ _ _ _ hparse]
  | ok query =>
    rw [maySend_iff front proc message peer .tcp server hparse, not_or, Bool.not_eq_true] at h
    rw [respond_of_judged _ _ _ _ _ _ _ hparse h.1, respond_of_judged _ _ _ _ _ _ _ hparse h.1]
    simp only [Traced.value_bind, PolicyEngine.value_ask]
    cases hdecision : (front.engine.evaluateFor query.question.hostname
      (front.callerOf proc .tcp peer server)).decision query.question.hostname with
    | deny => rfl
    | answer addrs => rfl
    | forward => exact absurd ((PolicyVerdict.decision_eq_forward_iff _ _).mp hdecision) h.2

/-- The messages a client sends at once are replied to one after the other, if
the replies fit, without a wait for anything but the upstream server. -/
theorem run_of_frames {buffer : Nat} (around : Around) (messages : List Bytes)
    {s : Conn Bytes (Option ProcFs)} (hphase : s.phase = .awaitingRequest)
    (hgone : s.gone = false) (hinbox : s.inbox = ⟨messages.flatMap (frame 2), .stall⟩)
    (hmessages : ∀ m ∈ messages, m.length ≤ maxMessage)
    (hcompletes : ∀ i (hi : i < messages.length),
      (forwardTcp (around i).1.tcp messages[i]).value.isSome = true)
    (hfits : s.outbox.length +
      ((front.replies around messages peer server).flatMap (frame 2)).length ≤ buffer) :
    ∃ events t, ((front.served peer server readTimeout timeout).connection buffer).run s events =
        some t ∧ t.phase = .awaitingRequest ∧ t.now = s.now ∧
      t.outbox = s.outbox ++ (front.replies around messages peer server).flatMap (frame 2) := by
  induction messages generalizing s around with
  | nil => exact ⟨[], s, rfl, hphase, rfl, by simp [replies]⟩
  | cons m messages ih =>
    have hreplies : front.replies around (m :: messages) peer server =
        (front.respond (around 0).1 (around 0).2 m peer .tcp server).value ::
          front.replies (fun i => around (i + 1)) messages peer server := by
      simp only [replies, List.mapIdx_cons]
    rw [hreplies, List.flatMap_cons, List.length_append] at hfits
    have hcomes : (front.served peer server readTimeout timeout).read s.inbox =
        some (.ok (some (m, ⟨messages.flatMap (frame 2), .stall⟩))) := by
      rw [hinbox, List.flatMap_cons]
      exact readTcpMessage_frame m _ _ (hmessages m (by simp))
    have hreplied : (front.served peer server readTimeout timeout).reply m (around 0).2
        (around 0).1 =
          some (frame 2 (front.respond (around 0).1 (around 0).2 m peer .tcp server).value) := rfl
    have hroom : s.outbox.length +
        (frame 2 (front.respond (around 0).1 (around 0).2 m peer .tcp server).value).length ≤
          buffer := by omega
    obtain ⟨events, hrun⟩ := Handler.run_of_reply hphase hgone hcomes (hcompletes 0 (by simp))
      (fun hasks => by
        have hnot := of_decide_eq_false hasks
        simp only [served, value_respond_of_not_maySend front peer server hnot _ (around 0).1])
      hreplied hroom
    obtain ⟨events', t, hrun', ht⟩ := ih (fun i => around (i + 1))
      (s := (front.served peer server readTimeout timeout).next
        { s with
          inbox := ⟨messages.flatMap (frame 2), .stall⟩
          outbox := s.outbox ++
            frame 2 (front.respond (around 0).1 (around 0).2 m peer .tcp server).value })
      rfl hgone rfl (fun m hm => hmessages m (by simp [hm]))
      (fun i hi => hcompletes (i + 1) (by simpa using hi))
      (by simp only [Handler.next, served, if_true, List.length_append]; omega)
    refine ⟨events ++ events', t, System.run_append_of_run hrun hrun', ht.1, ht.2.1, ?_⟩
    rw [ht.2.2, hreplies, List.flatMap_cons, ← List.append_assoc]
    rfl

/-- So a connection is written what it is replied with. -/
theorem served_writes_replies {buffer : Nat} (around : Around) (messages : List Bytes)
    (hmessages : ∀ m ∈ messages, m.length ≤ maxMessage)
    (hcompletes : ∀ i (hi : i < messages.length),
      (forwardTcp (around i).1.tcp messages[i]).value.isSome = true)
    (hfits : ((front.replies around messages peer server).flatMap (frame 2)).length ≤ buffer) :
    ∃ events s, ((front.served peer server readTimeout timeout).connection buffer).run
        ((front.served peer server readTimeout timeout).connection buffer).init
        (.send (messages.flatMap (frame 2)) :: events) = some s ∧ s.now = 0 ∧
      s.outbox = (front.serveTcpConnection around ⟨messages.flatMap (frame 2), .stall⟩ peer
        server).value.1 := by
  let sent : Conn Bytes (Option ProcFs) :=
    ⟨.awaitingRequest, some readTimeout, 0, ⟨messages.flatMap (frame 2), .stall⟩, [], false⟩
  have hroom : sent.outbox.length +
      ((front.replies around messages peer server).flatMap (frame 2)).length ≤ buffer := by
    simpa [sent] using hfits
  obtain ⟨events, s, hrun, _, hnow, houtbox⟩ := front.run_of_frames peer server readTimeout timeout
    around messages (s := sent) rfl rfl rfl hmessages hcompletes hroom
  refine ⟨events, s, (System.run_cons_eq_some_iff _ _ _ _).mpr ⟨_, rfl, hrun⟩, hnow, ?_⟩
  have hcount := Framing.length_le_frames 2 (by decide) messages
  have hframes := serveTcpMessages_frames front peer server
    ((messages.flatMap (frame 2)).length + 1) around messages [] .stall (by omega) hmessages
    (Framing.takeFrame_nil 2 (by decide))
  rw [List.append_nil] at hframes
  rw [houtbox, serveTcpConnection, hframes, List.nil_append]

end Dns.Frontend

/-- In every run every wait of a handler is covered by a deadline exactly if
its replies fit into what its clients leave room for. Then a client of the nscd
front-end holds its slot for two deadlines at most, and one of the DNS
front-end for two with each message it gets in. So on an endless run the slot is
given back, all waits covered, exactly if the replies fit and, at the DNS front-end,
the messages come to an end. -/
theorem deadlines_cover_iff [NativeEndian] :
    (∀ (engine : PolicyEngine cel) (caller : Caller) (readTimeout upstreamTimeout buffer : Nat),
      (∀ (events : List (Served.Event Unit Nscd.Upstream)) (s : Conn Nscd.Request Unit),
        ((Nscd.served engine caller readTimeout upstreamTimeout).connection buffer).run
            ((Nscd.served engine caller readTimeout upstreamTimeout).connection buffer).init
            events = some s →
        (Nscd.served engine caller readTimeout upstreamTimeout).DeadlinesHold buffer events s
          (readTimeout + upstreamTimeout)) ∧
      ∀ b : ((Nscd.served engine caller readTimeout upstreamTimeout).connection buffer).Behaviour,
        Handler.Timely b →
        ((Nscd.served engine caller readTimeout upstreamTimeout).GivesBack buffer b ↔
          ∀ n, (Nscd.served engine caller readTimeout upstreamTimeout).Fits buffer (b.state n)
            (b.event n))) ∧
    (∀ (front : Dns.Frontend cel) (peer server : SocketAddr) (readTimeout timeout buffer : Nat),
      (∀ (events : List (Served.Event (Option ProcFs) Dns.Upstream))
          (s : Conn Bytes (Option ProcFs)),
        ((front.served peer server readTimeout timeout).connection buffer).run
            ((front.served peer server readTimeout timeout).connection buffer).init
            events = some s →
        (front.served peer server readTimeout timeout).DeadlinesHold buffer events s
          ((events.countP Served.Event.isReceive + 1) * (readTimeout + timeout))) ∧
      ∀ b : ((front.served peer server readTimeout timeout).connection buffer).Behaviour,
        Handler.Timely b →
        ((front.served peer server readTimeout timeout).GivesBack buffer b ↔
          (∀ n, (front.served peer server readTimeout timeout).Fits buffer (b.state n)
            (b.event n)) ∧ Handler.RequestsEnd b)) := by
  constructor
  · intro engine caller readTimeout upstreamTimeout buffer
    constructor
    · intro events s hrun
      have hhold := Handler.deadlinesHold hrun
      have hextension : (Nscd.served engine caller readTimeout upstreamTimeout).extension = 0 := rfl
      rwa [hextension, Nat.mul_zero] at hhold
    · intro b htimely
      have hkeeps : (Nscd.served engine caller readTimeout upstreamTimeout).keeps = false := rfl
      rw [Handler.givesBack_iff htimely, hkeeps]
      simp
  · intro front peer server readTimeout timeout buffer
    constructor
    · intro events s hrun
      have hhold := Handler.deadlinesHold hrun
      have hextension : (front.served peer server readTimeout timeout).extension =
          readTimeout + timeout := rfl
      rw [hextension, Nat.add_comm] at hhold
      rw [Nat.succ_mul]
      exact hhold
    · intro b htimely
      have hkeeps : (front.served peer server readTimeout timeout).keeps = true := rfl
      rw [Handler.givesBack_iff htimely, hkeeps]
      simp

/-- A group is looked up of which the real nscd has more to say than the
sockets hold. -/
def groupLookup : List (Served.Event Unit Nscd.Upstream) :=
  [.elapse 3, .send (@Nscd.Request.encode Nscd.littleEndian .getGrByName [97, 0]), .receive (),
    .elapse 2, .answer (.answered ⟨List.replicate 65 0, .eof⟩)]

/-- Messages that are no queries, each answered with FORMERR. -/
def pipelined (n : Nat) : List (Served.Event (Option ProcFs) Dns.Upstream) :=
  .send ((List.replicate n [0, 3, 1, 2, 3]).flatten) :: List.replicate n (.receive none)

/-- A message, its reply, and then nothing more. -/
def idle : List (Served.Event (Option ProcFs) Dns.Upstream) :=
  pipelined 1 ++ [.take 14, .elapse 5, .expire]

/-- A client that reads its reply and asks again, shortly before its deadline. -/
def asksOn : List (Served.Event (Option ProcFs) Dns.Upstream) :=
  (pipelined 1 ++ [.take 14]) ++ [.elapse 4]

theorem deadlines_cover_small_replies :
    (∃ s, ((@Nscd.served _ Nscd.littleEndian PolicyEngine.testEngine .unknown 5 5).connection
        65).run (.accepted 5) groupLookup = some s ∧
      (@Nscd.served _ Nscd.littleEndian PolicyEngine.testEngine .unknown 5 5).DeadlinesHold 65
        groupLookup s 10) ∧
    (∃ s, ((Dns.Frontend.testFront.served ⟨loopback, 5000⟩ ⟨loopback, 53⟩ 5 5).connection
        64).run (.accepted 5) (pipelined 4) = some s ∧
      (Dns.Frontend.testFront.served ⟨loopback, 5000⟩ ⟨loopback, 53⟩ 5 5).DeadlinesHold 64
        (pipelined 4) s 50) ∧
    (∃ b, Handler.Timely b ∧ (@Nscd.served _ Nscd.littleEndian PolicyEngine.testEngine .unknown
      5 5).GivesBack 65 b) ∧
    ∃ b, Handler.Timely b ∧
      (Dns.Frontend.testFront.served ⟨loopback, 5000⟩ ⟨loopback, 53⟩ 5 5).GivesBack 64 b := by
  obtain ⟨hnscd, hdns⟩ := @deadlines_cover_iff Cel.direct Nscd.littleEndian
  have hclosed : ∀ {ρ κ : Type} {run : Option (Conn ρ κ)},
      run.map Conn.isClosed = some true → ∃ s, run = some s ∧ s.isClosed = true := by
    intro ρ κ run hrun
    exact Option.map_eq_some_iff.mp hrun
  obtain ⟨s, hs, hend⟩ := hclosed (show ((((@Nscd.served _ Nscd.littleEndian
    PolicyEngine.testEngine .unknown 5 5).connection 65).run (.accepted 5)
      groupLookup).map Conn.isClosed) = some true by decide)
  obtain ⟨t, ht⟩ := Option.isSome_iff_exists.mp (show (((Dns.Frontend.testFront.served
    ⟨loopback, 5000⟩ ⟨loopback, 53⟩ 5 5).connection 64).run (.accepted 5)
      (pipelined 4)).isSome = true by decide)
  obtain ⟨u, hu, hidle⟩ := hclosed (show ((((Dns.Frontend.testFront.served
    ⟨loopback, 5000⟩ ⟨loopback, 53⟩ 5 5).connection 64).run (.accepted 5)
      idle).map Conn.isClosed) = some true by decide)
  obtain ⟨b, htimely, hfits, _⟩ := Handler.exists_behaviour_of_closed hs hend (by decide)
  obtain ⟨c, htimely', hfits', hrequests⟩ :=
    Handler.exists_behaviour_of_closed hu hidle (by decide)
  exact ⟨⟨s, hs, (hnscd _ _ 5 5 65).1 groupLookup s hs⟩,
    ⟨t, ht, (hdns _ _ _ 5 5 64).1 (pipelined 4) t ht⟩,
    ⟨b, htimely, ((hnscd _ _ 5 5 65).2 b htimely).mpr hfits⟩,
    c, htimely', ((hdns _ _ _ 5 5 64).2 c htimely').mpr ⟨hfits', hrequests⟩⟩

/-- One round of it: the client gets its reply and the slot is kept for four more. -/
theorem run_asksOn (deadline now : Nat) :
    ((Dns.Frontend.testFront.served ⟨loopback, 5000⟩ ⟨loopback, 53⟩ 5 5).connection 64).run
        ⟨.awaitingRequest, some deadline, now, ⟨[], .stall⟩, [], false⟩ asksOn =
      some ⟨.awaitingRequest, some (now + 5), now + 4, ⟨[], .stall⟩, [], false⟩ := by
  have hreplied : ((Dns.Frontend.testFront.served ⟨loopback, 5000⟩ ⟨loopback, 53⟩ 5
      5).connection 64).run ⟨.awaitingRequest, some deadline, now, ⟨[], .stall⟩, [], false⟩
        (pipelined 1 ++ [.take 14]) =
      some ⟨.awaitingRequest, some (now + 5), now, ⟨[], .stall⟩, [], false⟩ := rfl
  refine System.run_append_of_run hreplied ((System.run_cons_eq_some_iff _ _ _ _).mpr ⟨_, ?_, rfl⟩)
  exact if_pos ⟨rfl, by simp⟩

/-- A client that does not read its replies is waited for as long as it likes,
by either front-end; and at the DNS front-end one that reads them and asks on keeps
its slot for as long as it likes. -/
theorem slot_held_by_its_client :
    (∃ s, ((@Nscd.served _ Nscd.littleEndian PolicyEngine.testEngine .unknown 5 5).connection
        64).run (.accepted 5) groupLookup = some s ∧
      (@Nscd.served _ Nscd.littleEndian PolicyEngine.testEngine .unknown 5 5).HeldForEver 64 s) ∧
    (∃ s, ((Dns.Frontend.testFront.served ⟨loopback, 5000⟩ ⟨loopback, 53⟩ 5 5).connection
        64).run (.accepted 5) (pipelined 5) = some s ∧
      (Dns.Frontend.testFront.served ⟨loopback, 5000⟩ ⟨loopback, 53⟩ 5 5).HeldForEver 64 s) ∧
    ∀ rounds, ∃ s, ((Dns.Frontend.testFront.served ⟨loopback, 5000⟩ ⟨loopback, 53⟩ 5
        5).connection 64).run (.accepted 5) (List.replicate rounds asksOn).flatten = some s ∧
      s.isClosed = false ∧ s.now = 4 * rounds := by
  have hwriting : ∀ {ρ κ υ : Type} {h : Handler ρ κ υ} {run : Option (Conn ρ κ)},
      run.map (fun s => (s.isWriting, s.deadline)) = some (true, none) →
      ∃ s, run = some s ∧ h.HeldForEver 64 s := by
    intro ρ κ υ h run hrun
    obtain ⟨s, rfl, hs⟩ := Option.map_eq_some_iff.mp hrun
    rw [Prod.mk.injEq] at hs
    exact ⟨s, rfl, Handler.heldForEver_of_writing hs.1 hs.2⟩
  refine ⟨hwriting (by decide), hwriting (by decide), ?_⟩
  have hrounds : ∀ rounds deadline now, ∃ deadline', ((Dns.Frontend.testFront.served
      ⟨loopback, 5000⟩ ⟨loopback, 53⟩ 5 5).connection 64).run
        ⟨.awaitingRequest, some deadline, now, ⟨[], .stall⟩, [], false⟩
        (List.replicate rounds asksOn).flatten =
      some ⟨.awaitingRequest, some deadline', now + 4 * rounds, ⟨[], .stall⟩, [], false⟩ := by
    intro rounds
    induction rounds with
    | zero => exact fun deadline now => ⟨deadline, rfl⟩
    | succ rounds ih =>
      intro deadline now
      obtain ⟨deadline', hrest⟩ := ih (now + 5) (now + 4)
      refine ⟨deadline', ?_⟩
      rw [List.replicate_succ, List.flatten_cons]
      rw [System.run_append_of_run (run_asksOn deadline now) hrest]
      congr 2
      omega
  intro rounds
  obtain ⟨deadline', hrun⟩ := hrounds rounds 5 0
  exact ⟨_, hrun, rfl, Nat.zero_add _⟩

end Deezns
