import Deezns.DnsReplies

/-!
# DNS over TCP

A connection brings messages as frames, as many as the client sends, and each
gets its reply as a frame before the next one is read.
-/
namespace Deezns.Dns

open Octets (Bytes)
open Framing (takeFrame frame unframe)

variable {cel : Cel}

/-- The upstream server and the processes as the messages of a connection find
them, one after the other. -/
abbrev Around := Nat → Upstream × Option ProcFs

/-- The loop over the messages, which are fuel for it: what it writes to a client
that reads, and how it ends. -/
def Frontend.serveTcpMessages (front : Frontend cel) (peer server : SocketAddr) :
    Nat → Around → Stream → Effect (Bytes × Except IoError Unit)
  | 0, _, _ => return ([], .ok ())
  | fuel + 1, around, stream =>
    match readTcpMessage stream with
    -- no query in time
    | none => return ([], .ok ())
    | some (.error e) => return ([], .error e)
    | some (.ok none) => return ([], .ok ())
    | some (.ok (some (message, rest))) => do
      let reply ← front.respond (around 0).1 (around 0).2 message peer .tcp server
      let (written, result) ←
        front.serveTcpMessages peer server fuel (fun i => around (i + 1)) rest
      return (lengthPrefix reply ++ reply ++ written, result)

def Frontend.serveTcpConnection (front : Frontend cel) (around : Around) (stream : Stream)
    (peer server : SocketAddr) : Effect (Bytes × Except IoError Unit) :=
  front.serveTcpMessages peer server (stream.bytes.length + 1) around stream

/-- The replies to the messages of a connection, one each. -/
def Frontend.replies (front : Frontend cel) (around : Around) (messages : List Bytes)
    (peer server : SocketAddr) : List Bytes :=
  messages.mapIdx (fun i message =>
    (front.respond (around i).1 (around i).2 message peer .tcp server).value)

theorem readTcpMessage_frame (message rest : Bytes) (ending : Ending)
    (h : message.length ≤ maxMessage) :
    readTcpMessage ⟨frame 2 message ++ rest, ending⟩ =
      some (.ok (some (message, ⟨rest, ending⟩))) := by
  refine (readTcpMessage_eq_message_iff _ _ _).mpr ⟨Framing.takeFrame_frame 2 message rest ?_, rfl⟩
  simp only [maxMessage] at h
  omega

theorem serveTcpMessages_incomplete (front : Frontend cel) (peer server : SocketAddr) (fuel : Nat)
    (around : Around) (left : Bytes) (ending : Ending) (h : takeFrame 2 left = none) :
    (front.serveTcpMessages peer server fuel around ⟨left, ending⟩).value.1 = [] := by
  cases fuel with
  | zero => rfl
  | succ fuel =>
    simp only [Frontend.serveTcpMessages]
    split
    · rfl
    · rfl
    · rfl
    · next message rest hread =>
      have hframe := ((readTcpMessage_eq_message_iff _ _ _).mp hread).1
      rw [h] at hframe
      cases hframe

/-- Frame by frame, the replies are written. -/
theorem serveTcpMessages_frames (front : Frontend cel) (peer server : SocketAddr) (fuel : Nat)
    (around : Around) (messages : List Bytes) (left : Bytes) (ending : Ending)
    (hfuel : messages.length ≤ fuel) (hmessages : ∀ m ∈ messages, m.length ≤ maxMessage)
    (hleft : takeFrame 2 left = none) :
    (front.serveTcpMessages peer server fuel around
        ⟨messages.flatMap (frame 2) ++ left, ending⟩).value.1 =
      (front.replies around messages peer server).flatMap (frame 2) := by
  induction messages generalizing fuel around with
  | nil => simpa [Frontend.replies] using
      serveTcpMessages_incomplete front peer server fuel around left ending hleft
  | cons m messages ih =>
    cases fuel with
    | zero => exact absurd hfuel (by simp)
    | succ fuel =>
      have hread := readTcpMessage_frame m (messages.flatMap (frame 2) ++ left) ending
        (hmessages m (by simp))
      have hrest := ih fuel (fun i => around (i + 1)) (Nat.le_of_succ_le_succ hfuel)
        (fun m hm => hmessages m (by simp [hm]))
      rw [List.flatMap_cons, List.append_assoc]
      simp only [Frontend.serveTcpMessages, hread, Traced.value_bind, Traced.value_pure, hrest,
        Frontend.replies, List.mapIdx_cons, List.flatMap_cons]
      rfl

/-- What is written on a connection reads back as the replies to its messages,
each behind its own length; an incomplete message at the end gets none. -/
theorem serveTcpConnection_framed (front : Frontend cel) (around : Around)
    (messages : List Bytes) (left : Bytes) (ending : Ending) (peer server : SocketAddr)
    (hmessages : ∀ m ∈ messages, m.length ≤ maxMessage) (hleft : takeFrame 2 left = none) :
    unframe 2 (front.serveTcpConnection around ⟨messages.flatMap (frame 2) ++ left, ending⟩
        peer server).value.1 = (front.replies around messages peer server, []) ∧
      ∀ reply ∈ front.replies around messages peer server,
        reply.length ≤ maxMessage ∧ Octets.fromBeBytes (lengthPrefix reply) = reply.length := by
  have hreplies : ∀ reply ∈ front.replies around messages peer server,
      reply.length ≤ maxMessage := by
    intro reply hreply
    obtain ⟨i, hi, rfl⟩ := List.mem_mapIdx.mp hreply
    exact front.length_respond_le _ _ _ _ _ _
  constructor
  · have hfuel := Framing.length_le_frames 2 (by decide) messages
    rw [Frontend.serveTcpConnection, serveTcpMessages_frames front peer server _ around messages
      left ending (by rw [List.length_append]; omega) hmessages hleft]
    have hback := Framing.unframe_frames 2 (by decide)
      (front.replies around messages peer server) [] (by
        intro reply hreply
        have hle := hreplies reply hreply
        simp only [maxMessage] at hle
        omega) (Framing.takeFrame_nil 2 (by decide))
    rwa [List.append_nil] at hback
  · intro reply hreply
    exact ⟨hreplies reply hreply, fromBeBytes_lengthPrefix reply (hreplies reply hreply)⟩

/-- A query, a message that is none, and half a length. -/
theorem serveTcpConnection_framed_pipelined :
    unframe 2 (Frontend.testFront.serveTcpConnection (fun _ => (⟨.stall, .connectStall⟩, none))
        ⟨[Frontend.testQuery, [1, 2, 3]].flatMap (frame 2) ++ [0], .eof⟩ ⟨loopback, 5000⟩
        ⟨loopback, 53⟩).value.1 =
      (Frontend.testFront.replies (fun _ => (⟨.stall, .connectStall⟩, none))
        [Frontend.testQuery, [1, 2, 3]] ⟨loopback, 5000⟩ ⟨loopback, 53⟩, []) :=
  (serveTcpConnection_framed _ _ _ [0] .eof _ _ (by decide) (by decide)).1

end Deezns.Dns
