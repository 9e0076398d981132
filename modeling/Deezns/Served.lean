import Deezns.Io
import Deezns.Runs

/-!
# Served connections

A handler reads a request, asks the upstream about it if it must, writes the
reply, and closes the connection or awaits the next request. The first two
waits are inside a timeout. The reply is written into what the sockets have
room for, and a client that reads nothing leaves no room.
-/
namespace Deezns.Served

open Octets (Bytes)

/-- What a handler does with requests of type `ρ`, in surroundings `κ` they are
judged in, and an upstream that behaves as a `υ`. -/
structure Handler (ρ κ υ : Type) where
  readTimeout : Nat
  upstreamTimeout : Nat
  /-- A request off what the client has sent; nothing at a clean end. -/
  read : Stream → Async (Option (ρ × Stream))
  /-- The upstream is asked. -/
  asks : ρ → κ → Bool
  /-- What the upstream does comes to an end. -/
  completes : ρ → υ → Bool
  /-- An upstream of which nothing is heard. -/
  silent : υ
  /-- What is written, or nothing before closing. -/
  reply : ρ → κ → υ → Option Bytes
  /-- Another request is awaited behind the reply. -/
  keeps : Bool

/-- Where a handler stands. -/
inductive Phase (ρ κ : Type) where
  | awaitingRequest
  | awaitingUpstream (request : ρ) (seen : κ)
  /-- What is left of a reply does not fit into the sockets. -/
  | writingReply (left : Bytes)
  | closed
  deriving DecidableEq, Repr

structure Conn (ρ κ : Type) where
  phase : Phase ρ κ
  deadline : Option Nat
  now : Nat
  /-- What the client has sent and the handler has not read. -/
  inbox : Stream
  /-- What the handler has written and the client has not read. -/
  outbox : Bytes
  /-- The client has closed its socket. -/
  gone : Bool
  deriving DecidableEq, Repr

/-- What the client does, the time that passes, and the turns of the handler. -/
inductive Event (κ υ : Type) where
  | send (bytes : Bytes)
  | finish
  | take (n : Nat)
  | leave
  | elapse (d : Nat)
  | receive (seen : κ)
  | answer (upstream : υ)
  | expire
  deriving DecidableEq, Repr

def Event.isReceive {κ υ : Type} : Event κ υ → Bool
  | .receive _ => true
  | _ => false

/-- The turns a handler takes. -/
inductive Move (ρ κ : Type) where
  | close
  | ask (request : ρ) (seen : κ)
  | write (bytes : Bytes)
  deriving DecidableEq, Repr

variable {ρ κ υ : Type}

namespace Conn

def close (s : Conn ρ κ) : Conn ρ κ := { s with phase := .closed, deadline := none }

/-- Accepted: the first request is awaited. -/
def accepted (readTimeout : Nat) : Conn ρ κ :=
  ⟨.awaitingRequest, some readTimeout, 0, ⟨[], .stall⟩, [], false⟩

def isWriting (s : Conn ρ κ) : Bool :=
  match s.phase with
  | .writingReply _ => true
  | _ => false

def isClosed (s : Conn ρ κ) : Bool :=
  match s.phase with
  | .closed => true
  | _ => false

theorem isClosed_iff (s : Conn ρ κ) : s.isClosed = true ↔ s.phase = .closed := by
  cases h : s.phase <;> simp [isClosed, h]

/-- A deadline is armed, and time has not passed it. -/
def Armed (s : Conn ρ κ) : Prop := ∃ t, s.deadline = some t ∧ s.now ≤ t

/-- The client's bytes end here. -/
def finish (s : Conn ρ κ) : Conn ρ κ := { s with inbox := ⟨s.inbox.bytes, .eof⟩ }

end Conn

namespace Handler

variable (h : Handler ρ κ υ) (buffer : Nat)

/-- The handler can only wait for the client or the upstream. -/
def waits (s : Conn ρ κ) : Bool :=
  match s.phase with
  | .awaitingRequest => (h.read s.inbox).isNone
  | .awaitingUpstream _ _ => true
  | .writingReply _ => true
  | .closed => false

/-- Behind a reply. -/
def next (s : Conn ρ κ) : Conn ρ κ :=
  if h.keeps then
    { s with phase := .awaitingRequest, deadline := some (s.now + h.readTimeout) }
  else s.close

/-- `write_all`, which is in no timeout. -/
def write (s : Conn ρ κ) (bytes : Bytes) : Conn ρ κ :=
  if s.gone then s.close
  else if s.outbox.length + bytes.length ≤ buffer then
    h.next { s with outbox := s.outbox ++ bytes }
  else
    { s with
      phase := .writingReply (bytes.drop (buffer - s.outbox.length))
      outbox := s.outbox ++ bytes.take (buffer - s.outbox.length)
      deadline := none }

def answered (request : ρ) (seen : κ) (upstream : υ) : Move ρ κ :=
  match h.reply request seen upstream with
  | some bytes => .write bytes
  | none => .close

/-- The turn of the handler, with what it leaves unread, if it can take one. -/
def move (s : Conn ρ κ) : Event κ υ → Option (Move ρ κ × Stream)
  | .receive seen =>
    match s.phase with
    | .awaitingRequest =>
      match h.read s.inbox with
      | none => none
      | some (.error _) => some (.close, s.inbox)
      | some (.ok none) => some (.close, s.inbox)
      | some (.ok (some (request, rest))) =>
        if h.asks request seen then some (.ask request seen, rest)
        else some (h.answered request seen h.silent, rest)
    | _ => none
  | .answer upstream =>
    match s.phase with
    | .awaitingUpstream request seen =>
      if h.completes request upstream then some (h.answered request seen upstream, s.inbox)
      else none
    | _ => none
  | .expire =>
    if s.deadline = some s.now then
      match s.phase with
      -- a request that has come is taken all the same
      | .awaitingRequest => if (h.read s.inbox).isNone then some (.close, s.inbox) else none
      | .awaitingUpstream request seen => some (h.answered request seen h.silent, s.inbox)
      | _ => none
    else none
  | _ => none

def carryOut (s : Conn ρ κ) : Move ρ κ → Conn ρ κ
  | .close => s.close
  | .ask request seen =>
    { s with
      phase := .awaitingUpstream request seen
      deadline := some (s.now + h.upstreamTimeout) }
  | .write bytes => h.write buffer s bytes

/-- What the client has read makes room for what is left of a reply. -/
def drain (s : Conn ρ κ) : Conn ρ κ :=
  match s.phase with
  | .writingReply left => h.write buffer s left
  | _ => s

def turn (s : Conn ρ κ) (event : Event κ υ) : Option (Conn ρ κ) :=
  (h.move s event).map (fun m => h.carryOut buffer { s with inbox := m.2 } m.1)

/-- One event. Time passes only while the handler waits, and no deadline. -/
def step (s : Conn ρ κ) : Event κ υ → Option (Conn ρ κ)
  | .send bytes =>
    if s.inbox.ending = .stall then
      some { s with inbox := ⟨s.inbox.bytes ++ bytes, .stall⟩ }
    else none
  | .finish => if s.inbox.ending = .stall then some s.finish else none
  | .take n => some (h.drain buffer { s with outbox := s.outbox.drop n })
  | .leave => some (h.drain buffer { s.finish with gone := true })
  | .elapse d =>
    if h.waits s ∧ s.deadline.all (fun t => s.now + d ≤ t) then
      some { s with now := s.now + d }
    else none
  | .receive seen => h.turn buffer s (.receive seen)
  | .answer upstream => h.turn buffer s (.answer upstream)
  | .expire => h.turn buffer s .expire

def connection : System (Conn ρ κ) (Event κ υ) where
  init := .accepted h.readTimeout
  step := h.step buffer

/-- The time each request adds to a connection that is kept for more. -/
def extension : Nat := if h.keeps then h.readTimeout + h.upstreamTimeout else 0

/-- A deadline is armed, and if nothing else happens, the handler leaves where
it stands when it is over. -/
def MovesOn (s : Conn ρ κ) : Prop :=
  ∃ t s', s.deadline = some t ∧
    (h.connection buffer).run s [.elapse (t - s.now), .expire] = some s' ∧ s'.phase ≠ s.phase

/-- A reply that is written now fits into what the client has left room for. -/
def Fits (s : Conn ρ κ) (event : Event κ υ) : Prop :=
  ∀ bytes inbox, h.move s event = some (.write bytes, inbox) →
    s.gone = true ∨ s.outbox.length + bytes.length ≤ buffer

end Handler

/-- The two waits in a timeout have a deadline ahead of them. -/
def Inv (s : Conn ρ κ) : Prop :=
  match s.phase with
  | .awaitingRequest => s.Armed
  | .awaitingUpstream _ _ => s.Armed
  | .writingReply _ => s.deadline = none
  | .closed => s.deadline = none

namespace Handler

variable {h : Handler ρ κ υ} {buffer : Nat}

theorem fits_iff (s : Conn ρ κ) (event : Event κ υ) :
    h.Fits buffer s event ↔ (h.move s event).all (fun m =>
      match m.1 with
      | .write bytes => s.gone || decide (s.outbox.length + bytes.length ≤ buffer)
      | _ => true) = true := by
  unfold Fits
  cases h.move s event with
  | none => simp
  | some m =>
    obtain ⟨m, inbox⟩ := m
    cases m <;> simp

instance (s : Conn ρ κ) (event : Event κ υ) : Decidable (h.Fits buffer s event) :=
  decidable_of_iff _ (fits_iff s event).symm

@[simp] theorem isWriting_close (s : Conn ρ κ) : s.close.isWriting = false := rfl

@[simp] theorem isWriting_next (s : Conn ρ κ) : (h.next s).isWriting = false := by
  unfold next
  split <;> rfl

theorem isWriting_write (s : Conn ρ κ) (bytes : Bytes) :
    (h.write buffer s bytes).isWriting = false ↔
      s.gone = true ∨ s.outbox.length + bytes.length ≤ buffer := by
  unfold write
  split
  · next hgone => simp [hgone]
  · next hgone =>
    split
    · next hfits => simp [hfits]
    · next hfits => simp [Conn.isWriting, hgone, hfits]

theorem inv_next (s : Conn ρ κ) : Inv (h.next s) := by
  unfold next
  split
  · exact ⟨_, rfl, Nat.le_add_right _ _⟩
  · rfl

theorem inv_write (s : Conn ρ κ) (bytes : Bytes) : Inv (h.write buffer s bytes) := by
  unfold write
  split
  · rfl
  · split
    · exact inv_next _
    · rfl

theorem inv_carryOut (s : Conn ρ κ) (m : Move ρ κ) : Inv (h.carryOut buffer s m) := by
  cases m with
  | close => rfl
  | ask request seen => exact ⟨_, rfl, Nat.le_add_right _ _⟩
  | write bytes => exact inv_write s bytes

/-- All that an event can do where no reply is being written. -/
theorem step_cases {s s' : Conn ρ κ} {event : Event κ υ} (hs : s.isWriting = false)
    (hstep : h.step buffer s event = some s') :
    (∃ inbox outbox gone, h.move s event = none ∧ event.isReceive = false ∧
      s' = { s with inbox := inbox, outbox := outbox, gone := gone }) ∨
    (∃ d, event = .elapse d ∧ h.waits s = true ∧
      s.deadline.all (fun t => s.now + d ≤ t) = true ∧ s' = { s with now := s.now + d }) ∨
    (∃ m inbox, h.move s event = some (m, inbox) ∧
      s' = h.carryOut buffer { s with inbox := inbox } m) := by
  have hdrain : ∀ s₁ : Conn ρ κ, s₁.phase = s.phase → h.drain buffer s₁ = s₁ := by
    intro s₁ hphase
    unfold drain
    split
    · next left hleft => simp [Conn.isWriting, ← hphase, hleft] at hs
    · rfl
  have hturn : h.turn buffer s event = some s' → ∃ m inbox, h.move s event = some (m, inbox) ∧
      s' = h.carryOut buffer { s with inbox := inbox } m := by
    intro hturn
    obtain ⟨⟨m, inbox⟩, hmove, heq⟩ := Option.map_eq_some_iff.mp hturn
    exact ⟨m, inbox, hmove, heq.symm⟩
  cases event with
  | send bytes =>
    obtain ⟨_, heq⟩ := Option.ite_none_right_eq_some.mp hstep
    exact .inl ⟨_, s.outbox, s.gone, rfl, rfl, (Option.some.inj heq).symm⟩
  | finish =>
    obtain ⟨_, heq⟩ := Option.ite_none_right_eq_some.mp hstep
    exact .inl ⟨_, s.outbox, s.gone, rfl, rfl, (Option.some.inj heq).symm⟩
  | take n =>
    refine .inl ⟨s.inbox, s.outbox.drop n, s.gone, rfl, rfl, ?_⟩
    rw [← Option.some.inj hstep]
    exact hdrain _ rfl
  | leave =>
    refine .inl ⟨s.finish.inbox, s.outbox, true, rfl, rfl, ?_⟩
    rw [← Option.some.inj hstep]
    exact hdrain _ rfl
  | elapse d =>
    obtain ⟨⟨hwaits, hall⟩, heq⟩ := Option.ite_none_right_eq_some.mp hstep
    exact .inr (.inl ⟨d, rfl, hwaits, hall, (Option.some.inj heq).symm⟩)
  | receive seen => exact .inr (.inr (hturn hstep))
  | answer upstream => exact .inr (.inr (hturn hstep))
  | expire => exact .inr (.inr (hturn hstep))

theorem inv_step {s s' : Conn ρ κ} {event : Event κ υ} (hs : Inv s) (hwriting : s.isWriting = false)
    (hstep : h.step buffer s event = some s') : Inv s' := by
  rcases step_cases hwriting hstep with ⟨inbox, outbox, gone, _, _, rfl⟩ |
    ⟨d, _, _, hall, rfl⟩ | ⟨m, inbox, _, rfl⟩
  · exact hs
  · have harmed : s.Armed → Conn.Armed { s with now := s.now + d } := by
      intro harmed
      obtain ⟨t, hdeadline, _⟩ := harmed
      rw [hdeadline, Option.all_some, decide_eq_true_eq] at hall
      exact ⟨t, hdeadline, hall⟩
    cases hphase : s.phase with
    | awaitingRequest =>
      simp only [Inv, hphase] at hs ⊢
      exact harmed hs
    | awaitingUpstream request seen =>
      simp only [Inv, hphase] at hs ⊢
      exact harmed hs
    | writingReply left =>
      simp only [Inv, hphase] at hs ⊢
      exact hs
    | closed =>
      simp only [Inv, hphase] at hs ⊢
      exact hs
  · exact inv_carryOut _ m

/-- A handler comes to wait in a write exactly if a reply does not fit. -/
theorem isWriting_step_iff {s s' : Conn ρ κ} {event : Event κ υ} (hwriting : s.isWriting = false)
    (hstep : h.step buffer s event = some s') :
    s'.isWriting = false ↔ h.Fits buffer s event := by
  rcases step_cases hwriting hstep with ⟨inbox, outbox, gone, hmove, _, rfl⟩ |
    ⟨d, rfl, _, _, rfl⟩ | ⟨m, inbox, hmove, rfl⟩
  · refine iff_of_true hwriting ?_
    intro bytes inbox' hwrite
    rw [hmove] at hwrite
    cases hwrite
  · refine iff_of_true hwriting ?_
    intro bytes inbox hwrite
    cases hwrite
  · unfold Fits
    rw [hmove]
    cases m with
    | close => simp [carryOut]
    | ask request seen => simp [carryOut, Conn.isWriting]
    | write bytes =>
      rw [carryOut, isWriting_write]
      constructor
      · intro hfits bytes' inbox' heq
        cases heq
        exact hfits
      · intro hall
        exact hall bytes inbox rfl

/-- The reply of an upstream, or of none, ends the wait for it. -/
theorem phase_answered_ne (s : Conn ρ κ) (request request' : ρ) (seen seen' : κ) (upstream : υ) :
    (h.carryOut buffer s (h.answered request seen upstream)).phase ≠
      .awaitingUpstream request' seen' := by
  have hnext : ∀ s : Conn ρ κ, (h.next s).phase ≠ .awaitingUpstream request' seen' := by
    intro s
    unfold next
    split <;> simp [Conn.close]
  unfold answered
  split
  · next bytes _ =>
    rw [carryOut, write]
    split
    · simp [Conn.close]
    · split
      · exact hnext _
      · simp
  · simp [carryOut, Conn.close]

/-- Where a deadline is armed, time alone moves the handler on. -/
theorem movesOn_of_armed {s : Conn ρ κ} (hs : Inv s) (hwaits : h.waits s = true)
    (hwriting : s.isWriting = false) : h.MovesOn buffer s := by
  have hrun : ∀ t s', s.deadline = some t → s.now ≤ t →
      h.turn buffer { s with now := t } .expire = some s' →
      (h.connection buffer).run s [.elapse (t - s.now), .expire] = some s' := by
    intro t s' hdeadline hle hexpire
    have helapse : h.step buffer s (.elapse (t - s.now)) = some { s with now := t } := by
      simp [step, hwaits, hdeadline, Nat.add_sub_cancel' hle]
    exact (System.run_cons_eq_some_iff _ _ _ _).mpr ⟨_, helapse,
      (System.run_cons_eq_some_iff _ _ _ _).mpr ⟨s', hexpire, rfl⟩⟩
  cases hphase : s.phase with
  | awaitingRequest =>
    simp only [Inv, hphase] at hs
    obtain ⟨t, hdeadline, hle⟩ := hs
    have hnone : h.read s.inbox = none := by simpa [waits, hphase] using hwaits
    refine ⟨t, Conn.close { s with now := t }, hdeadline, hrun t _ hdeadline hle ?_, ?_⟩
    · simp [turn, move, hdeadline, hphase, hnone, carryOut]
    · simp [Conn.close, hphase]
  | awaitingUpstream request seen =>
    simp only [Inv, hphase] at hs
    obtain ⟨t, hdeadline, hle⟩ := hs
    refine ⟨t, h.carryOut buffer { s with now := t } (h.answered request seen h.silent),
      hdeadline, hrun t _ hdeadline hle ?_, ?_⟩
    · simp [turn, move, hdeadline, hphase]
    · rw [hphase]
      exact phase_answered_ne _ _ _ _ _ _
  | writingReply left => simp [Conn.isWriting, hphase] at hwriting
  | closed => simp [waits, hphase] at hwaits

/-- Every wait is covered by a deadline but that for a client to read. -/
theorem covered_iff {s : Conn ρ κ} (hs : Inv s) :
    (h.waits s = true → h.MovesOn buffer s) ↔ s.isWriting = false := by
  constructor
  · intro hcovered
    cases hphase : s.phase with
    | writingReply left =>
      obtain ⟨t, _, hdeadline, _⟩ := hcovered (by simp [waits, hphase])
      simp only [Inv, hphase] at hs
      rw [hs] at hdeadline
      cases hdeadline
    | awaitingRequest => simp [Conn.isWriting, hphase]
    | awaitingUpstream request seen => simp [Conn.isWriting, hphase]
    | closed => simp [Conn.isWriting, hphase]
  · intro hwriting hwaits
    exact movesOn_of_armed hs hwaits hwriting

theorem inv_init : Inv (h.connection buffer).init := ⟨h.readTimeout, rfl, Nat.zero_le _⟩

theorem inv_step_of_covered {s s' : Conn ρ κ} {event : Event κ υ}
    (hstep : h.step buffer s event = some s') (hs : Inv s)
    (hcovered : h.waits s = true → h.MovesOn buffer s) : Inv s' :=
  inv_step hs ((covered_iff hs).mp hcovered) hstep

/-- Behind a covered wait the next one is covered exactly if the reply fits. -/
theorem covered_step_iff {s s' : Conn ρ κ} {event : Event κ υ}
    (hstep : h.step buffer s event = some s') (hs : Inv s)
    (hcovered : h.waits s = true → h.MovesOn buffer s) :
    (h.waits s' = true → h.MovesOn buffer s') ↔ h.Fits buffer s event := by
  have hwriting := (covered_iff hs).mp hcovered
  rw [covered_iff (inv_step hs hwriting hstep)]
  exact isWriting_step_iff hwriting hstep

/-- Along a run every wait is covered exactly if every reply fits. -/
theorem covered_along_iff {s : Conn ρ κ} {events : List (Event κ υ)}
    (hrun : (h.connection buffer).run (h.connection buffer).init events = some s) :
    (∀ x ∈ (h.connection buffer).states (h.connection buffer).init events,
        h.waits x = true → h.MovesOn buffer x) ↔
      ∀ p ∈ (h.connection buffer).steps (h.connection buffer).init events,
        h.Fits buffer p.1 p.2 := by
  apply System.forall_states_iff (I := Inv) _ _ hrun inv_init ((covered_iff inv_init).mpr rfl)
  · exact fun x event x' => inv_step_of_covered
  · exact fun x event x' => covered_step_iff

/-- The latest a connection can last, if no more requests come. -/
def budget (h : Handler ρ κ υ) (s : Conn ρ κ) : Nat :=
  match s.phase with
  | .awaitingRequest => s.deadline.getD 0 + h.upstreamTimeout
  | .awaitingUpstream _ _ => s.deadline.getD 0 + h.extension
  | .writingReply _ => 0
  | .closed => 0

theorem now_le_budget {s : Conn ρ κ} (hs : Inv s) (hwriting : s.isWriting = false)
    (hopen : s.isClosed = false) : s.now ≤ h.budget s := by
  cases hphase : s.phase with
  | awaitingRequest =>
    simp only [Inv, hphase] at hs
    obtain ⟨t, hdeadline, hle⟩ := hs
    simp only [budget, hphase, hdeadline, Option.getD_some]
    omega
  | awaitingUpstream request seen =>
    simp only [Inv, hphase] at hs
    obtain ⟨t, hdeadline, hle⟩ := hs
    simp only [budget, hphase, hdeadline, Option.getD_some]
    omega
  | writingReply left => simp [Conn.isWriting, hphase] at hwriting
  | closed => simp [Conn.isClosed, hphase] at hopen

/-- A reply that fits leads to the end, or to the wait for another request. -/
theorem budget_write_le {s : Conn ρ κ} {bytes : Bytes}
    (hfits : s.gone = true ∨ s.outbox.length + bytes.length ≤ buffer) :
    h.budget (h.write buffer s bytes) ≤ if h.keeps then s.now + h.extension else 0 := by
  have hnext : ∀ s₁ : Conn ρ κ, s₁.now = s.now →
      h.budget (h.next s₁) ≤ if h.keeps then s.now + h.extension else 0 := by
    intro s₁ hnow
    unfold next extension
    split
    · simp only [budget, Option.getD_some, hnow]
      omega
    · exact Nat.zero_le _
  unfold write
  split
  · exact Nat.zero_le _
  · next hgone =>
    rw [if_pos (hfits.resolve_left hgone)]
    exact hnext _ rfl

/-- Where a handler that takes a turn stands. -/
theorem phase_of_move {s : Conn ρ κ} {event : Event κ υ} {m : Move ρ κ} {inbox : Stream}
    (hmove : h.move s event = some (m, inbox)) :
    (s.phase = .awaitingRequest ∧ (event.isReceive = true ∨ m = .close)) ∨
    (∃ request seen, s.phase = .awaitingUpstream request seen ∧ event.isReceive = false ∧
      ∃ upstream, m = h.answered request seen upstream) := by
  cases event with
  | receive seen =>
    simp only [move] at hmove
    split at hmove
    · next hphase => exact .inl ⟨hphase, .inl rfl⟩
    · cases hmove
  | answer upstream =>
    simp only [move] at hmove
    split at hmove
    · next request seen hphase =>
      obtain ⟨_, heq⟩ := Option.ite_none_right_eq_some.mp hmove
      cases heq
      exact .inr ⟨request, seen, hphase, rfl, upstream, rfl⟩
    · cases hmove
  | expire =>
    obtain ⟨_, hmove⟩ := Option.ite_none_right_eq_some.mp hmove
    split at hmove
    · next hphase =>
      obtain ⟨_, heq⟩ := Option.ite_none_right_eq_some.mp hmove
      cases heq
      exact .inl ⟨hphase, .inr rfl⟩
    · next request seen hphase =>
      cases hmove
      exact .inr ⟨request, seen, hphase, rfl, h.silent, rfl⟩
    · cases hmove
  | send bytes => cases hmove
  | finish => cases hmove
  | take n => cases hmove
  | leave => cases hmove
  | elapse d => cases hmove

/-- Only a request extends the time a connection can last. -/
theorem budget_step_le {s s' : Conn ρ κ} {event : Event κ υ} (hs : Inv s)
    (hwriting : s.isWriting = false) (hstep : h.step buffer s event = some s')
    (hfits : h.Fits buffer s event) :
    h.budget s' ≤ h.budget s + if event.isReceive then h.extension else 0 := by
  rcases step_cases hwriting hstep with ⟨inbox, outbox, gone, _, _, rfl⟩ |
    ⟨d, _, _, _, rfl⟩ | ⟨m, inbox, hmove, rfl⟩
  · exact Nat.le_add_right _ _
  · exact Nat.le_add_right _ _
  · have hwrite : ∀ bytes, m = .write bytes →
        h.budget (h.carryOut buffer { s with inbox := inbox } m) ≤ s.now + h.extension := by
      intro bytes hm
      rw [hm] at hmove ⊢
      calc h.budget (h.carryOut buffer { s with inbox := inbox } (.write bytes))
          ≤ if h.keeps then s.now + h.extension else 0 :=
            budget_write_le (s := { s with inbox := inbox }) (hfits bytes inbox hmove)
        _ ≤ s.now + h.extension := by
          split
          · exact le_rfl
          · exact Nat.zero_le _
    rcases phase_of_move hmove with ⟨hphase, hreceive⟩ |
      ⟨request, seen, hphase, hreceive, upstream, hm⟩
    · simp only [Inv, hphase] at hs
      obtain ⟨t, hdeadline, hle⟩ := hs
      have hbudget : h.budget s = t + h.upstreamTimeout := by simp [budget, hphase, hdeadline]
      cases m with
      | close => exact Nat.zero_le _
      | ask request seen =>
        rw [if_pos (hreceive.resolve_right (by simp)), hbudget]
        simp only [carryOut, budget, Option.getD_some]
        omega
      | write bytes =>
        have hbound := hwrite bytes rfl
        rw [if_pos (hreceive.resolve_right (by simp)), hbudget]
        omega
    · simp only [Inv, hphase] at hs
      obtain ⟨t, hdeadline, hle⟩ := hs
      have hbudget : h.budget s = t + h.extension := by simp [budget, hphase, hdeadline]
      cases m with
      | close => exact Nat.zero_le _
      | ask request' seen' =>
        unfold answered at hm
        split at hm <;> cases hm
      | write bytes =>
        have hbound := hwrite bytes rfl
        rw [hbudget]
        omega

/-- As long as every reply fits, a connection is over in the time of its
requests. -/
theorem now_le_of_fits {s : Conn ρ κ} {events : List (Event κ υ)}
    (hrun : (h.connection buffer).run (h.connection buffer).init events = some s)
    (hfits : ∀ p ∈ (h.connection buffer).steps (h.connection buffer).init events,
      h.Fits buffer p.1 p.2) (hopen : s.isClosed = false) :
    s.now ≤ h.readTimeout + h.upstreamTimeout + events.countP Event.isReceive * h.extension := by
  obtain ⟨⟨hinv, hwriting⟩, hbudget⟩ := System.le_add_of_run
    (I := fun x => Inv x ∧ x.isWriting = false) (f := h.budget) (F := Event.isReceive)
    (c := h.extension) (fun x event x' hstep hx hgood =>
      ⟨⟨inv_step hx.1 hx.2 hstep, (isWriting_step_iff hx.2 hstep).mpr hgood⟩,
        budget_step_le hx.1 hx.2 hstep hgood⟩) hrun ⟨inv_init, rfl⟩ hfits
  exact (now_le_budget hinv hwriting hopen).trans hbudget

/-- A request that has come is replied to in no time, if the upstream answers
at once and the reply fits. -/
theorem run_of_reply {s : Conn ρ κ} {request : ρ} {rest : Stream} {seen : κ} {upstream : υ}
    {reply : Bytes} (hphase : s.phase = .awaitingRequest) (hgone : s.gone = false)
    (hread : h.read s.inbox = some (.ok (some (request, rest))))
    (hcompletes : h.completes request upstream = true)
    (hasks : h.asks request seen = false →
      h.reply request seen h.silent = h.reply request seen upstream)
    (hreply : h.reply request seen upstream = some reply)
    (hfits : s.outbox.length + reply.length ≤ buffer) :
    ∃ events, (h.connection buffer).run s events =
      some (h.next { s with inbox := rest, outbox := s.outbox ++ reply }) := by
  have hnext : ∀ s₁ : Conn ρ κ, s₁.gone = s.gone → s₁.outbox = s.outbox → s₁.now = s.now →
      s₁.inbox = rest → h.carryOut buffer s₁ (.write reply) =
        h.next { s with inbox := rest, outbox := s.outbox ++ reply } := by
    intro s₁ hgone₁ houtbox hnow hinbox
    have hroom : ¬ s₁.gone = true := by simp [hgone₁, hgone]
    rw [carryOut, write, if_neg hroom, if_pos (by rw [houtbox]; exact hfits)]
    unfold next
    split <;> simp [Conn.close, hgone₁, houtbox, hnow, hinbox]
  have hanswered : h.answered request seen upstream = .write reply := by
    rw [answered, hreply]
  cases hask : h.asks request seen with
  | true =>
    have hreceive : h.step buffer s (.receive seen) = some
        { s with
          phase := .awaitingUpstream request seen
          deadline := some (s.now + h.upstreamTimeout)
          inbox := rest } := by
      simp [step, turn, move, hphase, hread, hask, carryOut]
    refine ⟨[.receive seen, .answer upstream], (System.run_cons_eq_some_iff _ _ _ _).mpr
      ⟨_, hreceive, (System.run_cons_eq_some_iff _ _ _ _).mpr ⟨_, ?_, rfl⟩⟩⟩
    rw [← hnext
      { s with
        phase := .awaitingUpstream request seen
        deadline := some (s.now + h.upstreamTimeout)
        inbox := rest } rfl rfl rfl rfl]
    simp [connection, step, turn, move, hcompletes, hanswered]
  | false =>
    have hsilent : h.answered request seen h.silent = .write reply := by
      rw [answered, hasks hask, hreply]
    refine ⟨[.receive seen], (System.run_cons_eq_some_iff _ _ _ _).mpr ⟨_, ?_, rfl⟩⟩
    rw [← hnext { s with inbox := rest } rfl rfl rfl rfl]
    simp [connection, step, turn, move, hphase, hread, hask, hsilent]

/-- No connection is held without a deadline as long as every reply fits, and
then none for longer than `bound`. -/
structure DeadlinesHold (h : Handler ρ κ υ) (buffer : Nat) (events : List (Event κ υ))
    (s : Conn ρ κ) (bound : Nat) : Prop where
  covered : (∀ x ∈ (h.connection buffer).states (h.connection buffer).init events,
      h.waits x = true → h.MovesOn buffer x) ↔
    ∀ p ∈ (h.connection buffer).steps (h.connection buffer).init events, h.Fits buffer p.1 p.2
  held : (∀ p ∈ (h.connection buffer).steps (h.connection buffer).init events,
      h.Fits buffer p.1 p.2) → s.isClosed = false → s.now ≤ bound

theorem deadlinesHold {s : Conn ρ κ} {events : List (Event κ υ)}
    (hrun : (h.connection buffer).run (h.connection buffer).init events = some s) :
    h.DeadlinesHold buffer events s
      (h.readTimeout + h.upstreamTimeout + events.countP Event.isReceive * h.extension) :=
  ⟨covered_along_iff hrun, now_le_of_fits hrun⟩

/-- Time goes on for as long as the connection is open. -/
def Timely (b : (h.connection buffer).Behaviour) : Prop :=
  (∀ n, (b.state n).isClosed = false) → ∀ t, ∃ n, t ≤ (b.state n).now

/-- No wait is without a deadline that moves the handler on, and the slot is given back. -/
structure GivesBack (h : Handler ρ κ υ) (buffer : Nat) (b : (h.connection buffer).Behaviour) :
    Prop where
  covered : ∀ n, h.waits (b.state n) = true → h.MovesOn buffer (b.state n)
  closed : ∃ n, (b.state n).isClosed = true

/-- For ever, every wait is covered exactly if every reply fits. -/
theorem covered_for_ever_iff (b : (h.connection buffer).Behaviour) :
    (∀ n, h.waits (b.state n) = true → h.MovesOn buffer (b.state n)) ↔
      ∀ n, h.Fits buffer (b.state n) (b.event n) := by
  apply b.forall_iff (I := Inv) (P := fun x => h.waits x = true → h.MovesOn buffer x) _ _
    inv_init ((covered_iff inv_init).mpr rfl)
  · exact fun x event x' => inv_step_of_covered
  · exact fun x event x' => covered_step_iff

/-- A closed connection stays closed, and nothing is read off it. -/
theorem step_of_closed {s s' : Conn ρ κ} {event : Event κ υ} (hs : s.isClosed = true)
    (hstep : h.step buffer s event = some s') : event.isReceive = false ∧ s'.isClosed = true := by
  have hphase := s.isClosed_iff.mp hs
  have hwriting : s.isWriting = false := by simp [Conn.isWriting, hphase]
  rcases step_cases hwriting hstep with ⟨inbox, outbox, gone, _, hreceive, rfl⟩ |
    ⟨d, _, hwaits, _⟩ | ⟨m, inbox, hmove, _⟩
  · exact ⟨hreceive, hs⟩
  · simp [waits, hphase] at hwaits
  · rcases phase_of_move hmove with ⟨hawaits, _⟩ | ⟨request, seen, hawaits, _⟩
    · cases hphase.symm.trans hawaits
    · cases hphase.symm.trans hawaits

/-- No more requests are read from some time on. -/
def RequestsEnd (b : (h.connection buffer).Behaviour) : Prop :=
  ∃ k, ∀ n, (b.event (k + n)).isReceive = false

theorem requestsEnd_of_closed {b : (h.connection buffer).Behaviour} {k : Nat}
    (hk : (b.state k).isClosed = true) : RequestsEnd b := by
  refine ⟨k, fun n => ?_⟩
  have hclosed := b.invariant_from (fun s event s' hstep hs => (step_of_closed hs hstep).2) hk n
  exact (step_of_closed hclosed (b.goes (k + n))).1

theorem countP_upTo_le {b : (h.connection buffer).Behaviour} {k : Nat}
    (hend : ∀ n, (b.event (k + n)).isReceive = false) (n : Nat) :
    (b.upTo n).countP Event.isReceive ≤ k := by
  have hlate : ∀ d, (b.upTo (k + d)).countP Event.isReceive ≤ k := by
    intro d
    induction d with
    | zero => simpa [System.Behaviour.upTo] using (b.upTo k).countP_le_length (p := Event.isReceive)
    | succ d ih =>
      rw [← Nat.add_assoc, System.Behaviour.upTo_succ, List.countP_append]
      simpa [hend d] using ih
  rcases Nat.le_total k n with hle | hle
  · obtain ⟨d, rfl⟩ := Nat.exists_eq_add_of_le hle
    exact hlate d
  · have hlength := (b.upTo n).countP_le_length (p := Event.isReceive)
    simp only [System.Behaviour.upTo, List.length_map, List.length_range'] at hlength ⊢
    omega

/-- A run that closes the connection, and on which every reply fits, goes on for ever
with nothing more of note. -/
theorem exists_behaviour_of_closed {s : Conn ρ κ} {events : List (Event κ υ)}
    (hrun : (h.connection buffer).run (h.connection buffer).init events = some s)
    (hclosed : s.isClosed = true)
    (hfits : ∀ p ∈ (h.connection buffer).steps (h.connection buffer).init events,
      h.Fits buffer p.1 p.2) :
    ∃ b : (h.connection buffer).Behaviour, Timely b ∧
      (∀ n, h.Fits buffer (b.state n) (b.event n)) ∧ RequestsEnd b := by
  have hstay : (h.connection buffer).step s (.take 0) = some s := by
    have hphase := s.isClosed_iff.mp hclosed
    cases s
    simp_all [connection, step, drain]
  obtain ⟨k, hk⟩ := System.Behaviour.exists_state_staying hrun hstay
  rw [← hk] at hclosed
  refine ⟨.staying events (.take 0) hrun hstay, ?_, ?_, requestsEnd_of_closed hclosed⟩
  · intro hopen
    rw [hopen k] at hclosed
    cases hclosed
  · intro n
    rcases System.Behaviour.step_staying hrun hstay n with hmem | ⟨_, hevent⟩
    · exact hfits _ hmem
    · intro bytes inbox hwrite
      rw [hevent] at hwrite
      cases hwrite

/-- A slot is given back, with no wait without a deadline, exactly if every reply fits
and, where the connection is kept for more, its requests come to an end. -/
theorem givesBack_iff {b : (h.connection buffer).Behaviour} (htimely : Timely b) :
    h.GivesBack buffer b ↔ (∀ n, h.Fits buffer (b.state n) (b.event n)) ∧
      (h.keeps = true → RequestsEnd b) := by
  constructor
  · intro hgives
    obtain ⟨k, hk⟩ := hgives.closed
    exact ⟨(covered_for_ever_iff b).mp hgives.covered, fun _ => requestsEnd_of_closed hk⟩
  · rintro ⟨hfits, hend⟩
    refine ⟨(covered_for_ever_iff b).mpr hfits, ?_⟩
    by_contra hopen
    have hopen' : ∀ n, (b.state n).isClosed = false := by
      intro n
      exact Bool.eq_false_iff.mpr fun hclosed => hopen ⟨n, hclosed⟩
    have hbound : ∀ n, (b.state n).now ≤ h.readTimeout + h.upstreamTimeout +
        (b.upTo n).countP Event.isReceive * h.extension := by
      intro n
      refine now_le_of_fits (b.run_upTo n) ?_ (hopen' n)
      intro p hp
      rw [← b.starts] at hp
      obtain ⟨i, rfl⟩ := b.exists_of_mem_steps 0 n p hp
      exact hfits i
    cases hkeeps : h.keeps with
    | true =>
      obtain ⟨k, hk⟩ := hend hkeeps
      obtain ⟨n, hn⟩ := htimely hopen' (h.readTimeout + h.upstreamTimeout + k * h.extension + 1)
      have hmore := Nat.mul_le_mul_right h.extension (countP_upTo_le hk n)
      have hle := hbound n
      omega
    | false =>
      have hextension : h.extension = 0 := by simp [extension, hkeeps]
      obtain ⟨n, hn⟩ := htimely hopen' (h.readTimeout + h.upstreamTimeout + 1)
      have hle := hbound n
      rw [hextension, Nat.mul_zero] at hle
      omega

/-- The client neither reads nor leaves. -/
def Withheld : Event κ υ → Prop
  | .take _ => False
  | .leave => False
  | _ => True

/-- A reply that does not fit is waited with, whatever else happens, for as
long as the client neither reads nor leaves. -/
theorem phase_of_withheld {s t : Conn ρ κ} {events : List (Event κ υ)} {left : Bytes}
    (hphase : s.phase = .writingReply left)
    (hrun : (h.connection buffer).run s events = some t) (hevents : ∀ e ∈ events, Withheld e) :
    t.phase = .writingReply left := by
  refine System.run_invariant_of_forall (P := fun x => x.phase = .writingReply left) ?_ hrun
    hevents hphase
  intro x event x' hwithheld hstep hx
  have hturn : ∀ event, h.turn buffer x event = some x' → h.move x event ≠ none := by
    intro event hturn hnone
    rw [turn, hnone] at hturn
    cases hturn
  cases event with
  | send bytes =>
    obtain ⟨_, heq⟩ := Option.ite_none_right_eq_some.mp hstep
    rw [← Option.some.inj heq]
    exact hx
  | finish =>
    obtain ⟨_, heq⟩ := Option.ite_none_right_eq_some.mp hstep
    rw [← Option.some.inj heq]
    exact hx
  | take n => exact hwithheld.elim
  | leave => exact hwithheld.elim
  | elapse d =>
    obtain ⟨_, heq⟩ := Option.ite_none_right_eq_some.mp hstep
    rw [← Option.some.inj heq]
    exact hx
  | receive seen => exact absurd (by simp [move, hx]) (hturn _ hstep)
  | answer upstream => exact absurd (by simp [move, hx]) (hturn _ hstep)
  | expire => exact absurd (by simp [move, hx]) (hturn _ hstep)

/-- The slot of the connection is held, and nothing but the client frees it. -/
structure HeldForEver (h : Handler ρ κ υ) (buffer : Nat) (s : Conn ρ κ) : Prop where
  waits : h.waits s = true
  uncovered : ¬ h.MovesOn buffer s
  timeless : ∀ d, (h.step buffer s (.elapse d)).isSome = true
  held : ∀ events t, (∀ e ∈ events, Withheld e) → (h.connection buffer).run s events = some t →
    t.isClosed = false

theorem heldForEver_of_writing {s : Conn ρ κ} (hwriting : s.isWriting = true)
    (hdeadline : s.deadline = none) : h.HeldForEver buffer s := by
  obtain ⟨left, hphase⟩ : ∃ left, s.phase = .writingReply left := by
    unfold Conn.isWriting at hwriting
    split at hwriting
    · next left hphase => exact ⟨left, hphase⟩
    · cases hwriting
  refine ⟨by simp [waits, hphase], ?_, ?_, ?_⟩
  · intro hmoves
    obtain ⟨t, _, ht, _⟩ := hmoves
    rw [hdeadline] at ht
    cases ht
  · intro d
    simp [step, waits, hphase, hdeadline]
  · intro events t hwithheld hrun
    simp [Conn.isClosed, phase_of_withheld hphase hrun hwithheld]

end Handler

end Deezns.Served
