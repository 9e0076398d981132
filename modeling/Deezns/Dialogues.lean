import Deezns.Connections
import Deezns.Nss
import Mathlib.Data.List.Infix

/-!
# Lookups over the policy socket

The NSS module and the daemon's handler at the two ends of a connection, each with its
own pace, and the bytes between them. The daemon's end may fail at any time; what the
module makes of a connection is then nothing, or what the daemon meant it to.
-/
namespace Deezns.Nss

open Octets (Bytes)
open Utf8 (Str encode)
open Daemon (Handler HandlerEvent ResolveRequest ResolveResponse Stands handleConnection replies)

/-- `query_daemon`, once it is connected. -/
inductive Client where
  /-- In `write_all`, with so much to write. -/
  | writing (rest : Bytes)
  /-- In `read_line`, with so much read. -/
  | reading (got : Bytes)
  | done (result : Option ResolveResponse)

structure Dialogue where
  client : Client
  /-- On its way to the daemon, and to the client. -/
  up : Bytes
  down : Bytes
  handler : Handler

inductive DialogueEvent where
  | write (n : Nat)
  | deliver (n : Nat)
  /-- The handler does what it does by itself, or fails. -/
  | act (event : HandlerEvent)
  /-- The handler finds that the client has left. -/
  | shut
  | read (n : Nat)
  | readEof
  /-- The client's end fails, which the handler has left. -/
  | hangUp

def DialogueEvent.fails : DialogueEvent → Bool
  | .act (.fail _) => true
  | .hangUp => true
  | _ => false

def Client.start (json : Json) (hostname : Str) : Client :=
  match json.toVec ⟨hostname⟩ with
  | .ok buf => .writing (buf ++ [0x0A])
  | .error _ => .done none

/-- What the client makes of what it has read, at the end of a line or of all. -/
def heard (json : Json) (got : Bytes) : Option ResolveResponse :=
  match (Stream.mk got .eof).readLine with
  | some (.ok line) => json.fromStr line
  | some (.error _) => none
  | none => none

/-- Neither from the client nor about it. -/
def isLocal : HandlerEvent → Bool
  | .line => true
  | .send _ => true
  | .fail _ => true
  | .receive _ => false
  | .eof => false

variable {cel : Cel} (json : Json) (daemon : Daemon.Json) (engine : PolicyEngine cel)
  (relays : Relays) (caller : Caller)

namespace Dialogue

def step (s : Dialogue) : DialogueEvent → Option Dialogue
  | .write n =>
    match s.client with
    | .writing rest =>
      if 0 < n ∧ n ≤ rest.length then
        some { s with
          client := if n = rest.length then .reading [] else .writing (rest.drop n)
          up := s.up ++ rest.take n }
      else none
    | _ => none
  | .deliver n =>
    if n ≤ s.up.length then
      (s.handler.step daemon engine relays caller (.receive (s.up.take n))).map
        (fun handler => { s with handler := handler, up := s.up.drop n })
    else none
  | .act event =>
    if isLocal event then
      (s.handler.step daemon engine relays caller event).map (fun handler =>
        { s with
          handler := handler
          down := s.down ++ handler.written.drop s.handler.written.length })
    else none
  | .shut =>
    match s.client with
    | .done _ =>
      if s.up = [] then
        (s.handler.step daemon engine relays caller .eof).map
          (fun handler => { s with handler := handler })
      else none
    | _ => none
  | .read n =>
    match s.client with
    | .reading got =>
      if 0 < n ∧ n ≤ s.down.length then
        let got := got ++ s.down.take n
        some { s with
          client := if 0x0A ∈ got then .done (heard json got) else .reading got
          down := s.down.drop n }
      else none
    | _ => none
  | .readEof =>
    match s.client, s.handler.phase with
    | .reading got, .ended _ =>
      if s.down = [] then some { s with client := .done (heard json got) } else none
    | _, _ => none
  | .hangUp =>
    match s.client, s.handler.phase with
    | .done _, _ => none
    | _, .ended _ => some { s with client := .done none }
    | _, _ => none

end Dialogue

def dialogue (hostname : Str) : System Dialogue DialogueEvent where
  init := ⟨.start json hostname, [], [], ⟨.reading, [], false, [], []⟩⟩
  step := Dialogue.step json daemon engine relays caller

variable {json daemon engine relays caller}

namespace Dialogue

/-- All that can happen. -/
inductive Moves (json : Json) (daemon : Daemon.Json) (engine : PolicyEngine cel)
    (relays : Relays) (caller : Caller) (s : Dialogue) : DialogueEvent → Dialogue → Prop where
  | writePart {n : Nat} {rest : Bytes} (hclient : s.client = .writing rest) (hpos : 0 < n)
      (hlt : n < rest.length) :
      Moves json daemon engine relays caller s (.write n)
        { s with client := .writing (rest.drop n), up := s.up ++ rest.take n }
  | writeAll {rest : Bytes} (hclient : s.client = .writing rest) (hne : rest ≠ []) :
      Moves json daemon engine relays caller s (.write rest.length)
        { s with client := .reading [], up := s.up ++ rest }
  | deliver {n : Nat} {handler : Handler} (hle : n ≤ s.up.length)
      (hstep : s.handler.step daemon engine relays caller (.receive (s.up.take n)) =
        some handler) :
      Moves json daemon engine relays caller s (.deliver n)
        { s with handler := handler, up := s.up.drop n }
  | act {event : HandlerEvent} {handler : Handler} (hlocal : isLocal event = true)
      (hstep : s.handler.step daemon engine relays caller event = some handler) :
      Moves json daemon engine relays caller s (.act event)
        { s with
          handler := handler
          down := s.down ++ handler.written.drop s.handler.written.length }
  | shut {result : Option ResolveResponse} {handler : Handler} (hclient : s.client = .done result)
      (hstep : s.handler.step daemon engine relays caller .eof = some handler) :
      Moves json daemon engine relays caller s .shut { s with handler := handler }
  | readPart {n : Nat} {got : Bytes} (hclient : s.client = .reading got) (hpos : 0 < n)
      (hle : n ≤ s.down.length) (hnot : 0x0A ∉ got ++ s.down.take n) :
      Moves json daemon engine relays caller s (.read n)
        { s with client := .reading (got ++ s.down.take n), down := s.down.drop n }
  | readLine {n : Nat} {got : Bytes} (hclient : s.client = .reading got)
      (hle : n ≤ s.down.length) (hmem : 0x0A ∈ got ++ s.down.take n) :
      Moves json daemon engine relays caller s (.read n)
        { s with client := .done (heard json (got ++ s.down.take n)), down := s.down.drop n }
  | readEof {got : Bytes} {result : Except IoError Unit} (hclient : s.client = .reading got)
      (hphase : s.handler.phase = .ended result) (hdown : s.down = []) :
      Moves json daemon engine relays caller s .readEof { s with client := .done (heard json got) }
  | hangUp {result : Except IoError Unit} (hclient : ∀ result, s.client ≠ .done result)
      (hphase : s.handler.phase = .ended result) :
      Moves json daemon engine relays caller s .hangUp { s with client := .done none }

theorem moves_of_step {s s' : Dialogue} {event : DialogueEvent}
    (h : s.step json daemon engine relays caller event = some s') :
    s.Moves json daemon engine relays caller event s' := by
  obtain ⟨client, up, down, handler⟩ := s
  cases event with
  | write n =>
    cases client with
    | writing rest =>
      simp only [step, Option.ite_none_right_eq_some, Option.some.injEq] at h
      obtain ⟨⟨hpos, hle⟩, rfl⟩ := h
      by_cases hn : n = rest.length
      · subst hn
        rw [if_pos rfl, List.take_length]
        exact .writeAll rfl (List.ne_nil_of_length_pos hpos)
      · rw [if_neg hn]
        exact .writePart rfl hpos (Nat.lt_of_le_of_ne hle hn)
    | reading got => simp [step] at h
    | done result => simp [step] at h
  | deliver n =>
    simp only [step, Option.ite_none_right_eq_some, Option.map_eq_some_iff] at h
    obtain ⟨hle, handler', hstep, rfl⟩ := h
    exact .deliver hle hstep
  | act event =>
    simp only [step, Option.ite_none_right_eq_some, Option.map_eq_some_iff] at h
    obtain ⟨hlocal, handler', hstep, rfl⟩ := h
    exact .act hlocal hstep
  | shut =>
    cases client with
    | writing rest => simp [step] at h
    | reading got => simp [step] at h
    | done result =>
      simp only [step, Option.ite_none_right_eq_some, Option.map_eq_some_iff] at h
      obtain ⟨-, handler', hstep, rfl⟩ := h
      exact .shut rfl hstep
  | read n =>
    cases client with
    | writing rest => simp [step] at h
    | reading got =>
      simp only [step, Option.ite_none_right_eq_some, Option.some.injEq] at h
      obtain ⟨⟨hpos, hle⟩, rfl⟩ := h
      by_cases hmem : 0x0A ∈ got ++ down.take n
      · rw [if_pos hmem]
        exact .readLine rfl hle hmem
      · rw [if_neg hmem]
        exact .readPart rfl hpos hle hmem
    | done result => simp [step] at h
  | readEof =>
    cases client with
    | writing rest => simp [step] at h
    | reading got =>
      cases hphase : handler.phase with
      | reading => simp [step, hphase] at h
      | writing rest => simp [step, hphase] at h
      | ended result =>
        simp only [step, hphase, Option.ite_none_right_eq_some, Option.some.injEq] at h
        obtain ⟨hdown, rfl⟩ := h
        exact .readEof rfl hphase hdown
    | done result => simp [step] at h
  | hangUp =>
    cases hphase : handler.phase with
    | reading => cases client <;> simp [step, hphase] at h
    | writing rest => cases client <;> simp [step, hphase] at h
    | ended result =>
      cases client with
      | writing rest =>
        simp only [step, hphase, Option.some.injEq] at h
        subst h
        exact .hangUp (by simp) hphase
      | reading got =>
        simp only [step, hphase, Option.some.injEq] at h
        subst h
        exact .hangUp (by simp) hphase
      | done result => simp [step] at h

end Dialogue

/-- The request and the reply as the two ends write them, in a line each, and read
them; and what is cut off a reply is not read as another one. -/
structure Speaks (json : Json) (daemon : Daemon.Json) (req : ResolveRequest)
    (resp : ResolveResponse) (line reply : Str) : Prop where
  request : json.toVec req = .ok (encode line)
  requestLine : '\n' ∉ line
  requestEnd : line.getLast? ≠ some '\r'
  understood : daemon.fromStr line = some req
  response : daemon.toVec resp = .ok (encode reply)
  responseLine : '\n' ∉ reply
  read : json.fromStr (reply ++ ['\n']) = some resp
  cut : ∀ got, got <+: encode reply → heard json got = none ∨ heard json got = some resp

/-- A line is read to its end and no further. -/
theorem eq_of_isPrefix_line {bytes got : Bytes} (hnot : 0x0A ∉ bytes) (hmem : 0x0A ∈ got)
    (h : got <+: bytes ++ [0x0A]) : got = bytes ++ [0x0A] := by
  obtain ⟨more, hmore⟩ := h
  rcases List.eq_nil_or_concat more with rfl | ⟨init, b, rfl⟩
  · rwa [List.append_nil] at hmore
  · rw [List.concat_eq_append, ← List.append_assoc] at hmore
    have hinit := (List.append_inj' hmore rfl).1
    rw [← hinit] at hnot
    exact absurd (List.mem_append_left _ hmem) hnot

section
variable {hostname : Str} {line reply : Str}
  (h : Speaks json daemon ⟨hostname⟩ (Daemon.response engine relays caller ⟨hostname⟩) line reply)
include h

theorem Speaks.start : Client.start json hostname = .writing (encode line ++ [0x0A]) := by
  rw [Client.start, h.request]

theorem Speaks.replies : replies daemon engine relays caller (encode line ++ [0x0A]) =
    encode reply ++ [0x0A] := by
  rw [Daemon.replies, lines_concat h.requestLine h.requestEnd,
    Daemon.handleConnection_of_request _ _ _ _ h.understood h.response]
  exact List.append_nil _

theorem Speaks.heard : heard json (encode reply ++ [0x0A]) =
    some (Daemon.response engine relays caller ⟨hostname⟩) := by
  rw [Nss.heard, Stream.readLine_eq h.responseLine [] .eof]
  exact h.read

/-- Of the one request nothing has been handled, or all. -/
theorem Speaks.done_cases {done : Bytes} (hwhole : Daemon.EndsLine done)
    (hbegins : done <+: encode line ++ [0x0A]) : done = [] ∨ done = encode line ++ [0x0A] := by
  rcases hwhole with hnil | ⟨init, rfl⟩
  · exact .inl hnil
  · exact .inr (eq_of_isPrefix_line (newline_not_mem_encode h.requestLine) (by simp) hbegins)

end

section
variable {s s' : Handler} {event : HandlerEvent}

theorem written_isPrefix_of_step (hstep : s.step daemon engine relays caller event = some s') :
    s.written <+: s'.written := by
  cases Handler.moves_of_step hstep with
  | receive => exact List.prefix_rfl
  | line => exact List.prefix_rfl
  | eof => exact List.prefix_rfl
  | lastLine => exact List.prefix_rfl
  | part => exact List.prefix_append _ _
  | all => exact List.prefix_append _ _
  | fail => exact List.prefix_rfl

/-- What is sent on is what the handler has written since. -/
theorem append_drop_written (before : Bytes) {down : Bytes} (hdown : before ++ down = s.written)
    (hstep : s.step daemon engine relays caller event = some s') :
    before ++ (down ++ s'.written.drop s.written.length) = s'.written := by
  obtain ⟨more, hmore⟩ := written_isPrefix_of_step hstep
  rw [← hmore, List.drop_left, ← List.append_assoc, hdown]

theorem received_of_isLocal (hlocal : isLocal event = true)
    (hstep : s.step daemon engine relays caller event = some s') :
    s'.received = s.received ∧ s'.atEof = s.atEof := by
  cases Handler.moves_of_step hstep with
  | receive => cases hlocal
  | line => exact ⟨rfl, rfl⟩
  | eof => cases hlocal
  | lastLine => cases hlocal
  | part => exact ⟨rfl, rfl⟩
  | all => exact ⟨rfl, rfl⟩
  | fail => exact ⟨rfl, rfl⟩

theorem received_of_receive {bytes : Bytes}
    (hstep : s.step daemon engine relays caller (.receive bytes) = some s') :
    s'.received = s.received ++ bytes ∧ s'.atEof = s.atEof ∧ s'.written = s.written := by
  cases Handler.moves_of_step hstep with
  | receive => exact ⟨rfl, rfl, rfl⟩

theorem not_ended_of_step (hstep : s.step daemon engine relays caller event = some s')
    (result : Except IoError Unit) : s.phase ≠ .ended result := by
  cases Handler.moves_of_step hstep with
  | receive hphase => simp [hphase]
  | line hphase => simp [hphase]
  | eof hphase => simp [hphase]
  | lastLine hphase => simp [hphase]
  | part hphase => simp [hphase]
  | all hphase => simp [hphase]
  | fail hends => exact hends result

end

/-- Where the client stands: what it has written is what the daemon has received or is
to receive, and the other way round. -/
def AtClient (request : Bytes) (resp : ResolveResponse) (up down : Bytes) (handler : Handler) :
    Client → Prop
  | .writing rest => rest ≠ [] ∧ handler.received ++ up ++ rest = request ∧
      down = handler.written
  | .reading got => handler.received ++ up = request ∧ 0x0A ∉ got ∧
      got ++ down = handler.written
  | .done result => result = some resp ∨
      result = none ∧ ∃ e, handler.phase = .ended (.error e)

/-- Where the client stands when the handler has taken a step. -/
theorem AtClient.of_handled {request up up' down down' : Bytes} {resp : ResolveResponse}
    {handler handler' : Handler} {client : Client}
    (h : AtClient request resp up down handler client)
    (hup : handler'.received ++ up' = handler.received ++ up)
    (hdown : ∀ before, before ++ down = handler.written → before ++ down' = handler'.written)
    (hends : ∀ result, handler.phase ≠ .ended result) :
    AtClient request resp up' down' handler' client := by
  cases client with
  | writing rest =>
    obtain ⟨hne, hrequest, hwritten⟩ := h
    refine ⟨hne, ?_, hdown [] hwritten⟩
    rw [hup]
    exact hrequest
  | reading got =>
    obtain ⟨hrequest, hnot, hwritten⟩ := h
    exact ⟨hup.trans hrequest, hnot, hdown got hwritten⟩
  | done result =>
    rcases h with hresult | ⟨-, e, hphase⟩
    · exact .inl hresult
    · exact absurd hphase (hends _)

def Client.IsDone (client : Client) : Prop := ∃ result, client = .done result

/-- Where the dialogue stands. -/
structure Stage (daemon : Daemon.Json) (engine : PolicyEngine cel) (relays : Relays)
    (caller : Caller) (request : Bytes) (resp : ResolveResponse) (s : Dialogue) : Prop where
  stands : ∃ done, Stands daemon engine relays caller s.handler done
  isOpen : ¬ s.client.IsDone → s.handler.atEof = false
  client : AtClient request resp s.up s.down s.handler s.client

theorem not_isDone_writing {client : Client} {rest : Bytes} (h : client = .writing rest) :
    ¬ client.IsDone := by
  rintro ⟨result, hdone⟩
  cases h.symm.trans hdone

theorem not_isDone_reading {client : Client} {got : Bytes} (h : client = .reading got) :
    ¬ client.IsDone := by
  rintro ⟨result, hdone⟩
  cases h.symm.trans hdone

namespace Stage

variable {s s' : Dialogue} {request : Bytes} {resp : ResolveResponse}
  (h : Stage daemon engine relays caller request resp s)
include h

theorem atClient {client : Client} (hclient : s.client = client) :
    AtClient request resp s.up s.down s.handler client := by
  rw [← hclient]
  exact h.client

theorem received_isPrefix (hnot : ¬ s.client.IsDone) : s.handler.received <+: request := by
  cases hclient : s.client with
  | writing rest =>
    obtain ⟨-, hrequest, -⟩ := h.atClient hclient
    exact ⟨s.up ++ rest, by rw [← List.append_assoc, hrequest]⟩
  | reading got => exact ⟨s.up, (h.atClient hclient).1⟩
  | done result => exact absurd ⟨result, hclient⟩ hnot

/-- While the client waits, the handler ends with an error only. -/
theorem error_of_ended (hnot : ¬ s.client.IsDone) {result : Except IoError Unit}
    (hphase : s.handler.phase = .ended result) : ∃ e, s.handler.phase = .ended (.error e) := by
  cases result with
  | error e => exact ⟨e, hphase⟩
  | ok _ =>
    obtain ⟨done, hstands⟩ := h.stands
    cases (h.isOpen hnot).symm.trans (hstands.ended hphase)

end Stage

section
variable {hostname : Str} {line reply : Str} {s s' : Dialogue} {event : DialogueEvent}
  (hspeaks : Speaks json daemon ⟨hostname⟩ (Daemon.response engine relays caller ⟨hostname⟩)
    line reply)
include hspeaks

/-- While the client waits, the handler has written nothing but a beginning of the reply. -/
theorem Stage.written_isPrefix {resp : ResolveResponse}
    (h : Stage daemon engine relays caller (encode line ++ [0x0A]) resp s)
    (hnot : ¬ s.client.IsDone) : s.handler.written <+: encode reply ++ [0x0A] := by
  obtain ⟨done, hstands⟩ := h.stands
  have hdone : done <+: s.handler.received := ⟨s.handler.buffer, hstands.received.symm⟩
  have hwritten := hstands.written_isPrefix
  rcases hspeaks.done_cases (hstands.whole (h.isOpen hnot))
    (hdone.trans (h.received_isPrefix hnot)) with rfl | rfl
  · exact hwritten.trans (List.nil_prefix)
  · rwa [hspeaks.replies] at hwritten

theorem stage_step
    (h : Stage daemon engine relays caller (encode line ++ [0x0A])
      (Daemon.response engine relays caller ⟨hostname⟩) s)
    (hstep : s.step json daemon engine relays caller event = some s') :
    Stage daemon engine relays caller (encode line ++ [0x0A])
      (Daemon.response engine relays caller ⟨hostname⟩) s' := by
  have hwritten := h.written_isPrefix hspeaks
  cases Dialogue.moves_of_step hstep with
  | @writePart n rest hclient hpos hlt =>
    obtain ⟨hne, hrequest, hdown⟩ := h.atClient hclient
    refine ⟨h.stands, fun _ => h.isOpen (not_isDone_writing hclient), ?_, ?_, hdown⟩
    · intro hnil
      rw [List.drop_eq_nil_iff] at hnil
      omega
    · rw [← hrequest]
      simp only [List.append_assoc, List.take_append_drop]
  | @writeAll rest hclient =>
    obtain ⟨hne, hrequest, hdown⟩ := h.atClient hclient
    refine ⟨h.stands, fun _ => h.isOpen (not_isDone_writing hclient), ?_, by simp, hdown⟩
    rw [← hrequest, List.append_assoc]
  | @deliver n handler hle hreceive =>
    obtain ⟨done, hstands⟩ := h.stands
    obtain ⟨hreceived, heof, hsame⟩ := received_of_receive hreceive
    refine ⟨hstands.step hreceive, fun hnot => heof.trans (h.isOpen hnot), ?_⟩
    apply h.client.of_handled _ _ (not_ended_of_step hreceive)
    · rw [hreceived, List.append_assoc, List.take_append_drop]
    · intro before hbefore
      exact hbefore.trans hsame.symm
  | @act own handler hlocal hown =>
    obtain ⟨done, hstands⟩ := h.stands
    obtain ⟨hreceived, heof⟩ := received_of_isLocal hlocal hown
    refine ⟨hstands.step hown, fun hnot => heof.trans (h.isOpen hnot), ?_⟩
    apply h.client.of_handled _ _ (not_ended_of_step hown)
    · rw [hreceived]
    · intro before hbefore
      exact append_drop_written before hbefore hown
  | @shut result handler hclient heof =>
    obtain ⟨done, hstands⟩ := h.stands
    refine ⟨hstands.step heof, fun hnot => absurd ⟨result, hclient⟩ hnot, ?_⟩
    rcases h.atClient hclient with hresult | ⟨-, e, hphase⟩
    · simp only [hclient]
      exact .inl hresult
    · exact absurd hphase (not_ended_of_step heof _)
  | @readPart n got hclient hpos hle hnot =>
    obtain ⟨hrequest, -, hdown⟩ := h.atClient hclient
    refine ⟨h.stands, fun _ => h.isOpen (not_isDone_reading hclient), hrequest, hnot, ?_⟩
    rw [List.append_assoc, List.take_append_drop]
    exact hdown
  | @readLine n got hclient hle hmem =>
    obtain ⟨-, -, hdown⟩ := h.atClient hclient
    have hgot : got ++ s.down.take n <+: s.handler.written := by
      rw [← hdown]
      exact List.prefix_append_right_inj got |>.mpr (List.take_prefix _ _)
    refine ⟨h.stands, fun hnot => absurd ⟨_, rfl⟩ hnot, .inl ?_⟩
    rw [eq_of_isPrefix_line (newline_not_mem_encode hspeaks.responseLine) hmem
      (hgot.trans (hwritten (not_isDone_reading hclient)))]
    exact hspeaks.heard
  | @readEof got result hclient hphase hempty =>
    obtain ⟨-, hnot, hdown⟩ := h.atClient hclient
    have hgot : got <+: encode reply ++ [0x0A] := by
      rw [hempty, List.append_nil] at hdown
      rw [hdown]
      exact hwritten (not_isDone_reading hclient)
    have hcut : got <+: encode reply := by
      apply (List.prefix_concat_iff.mp hgot).resolve_left
      rintro rfl
      simp at hnot
    refine ⟨h.stands, fun hdone => absurd ⟨_, rfl⟩ hdone, ?_⟩
    rcases hspeaks.cut got hcut with hnone | hsome
    · exact .inr ⟨hnone, h.error_of_ended (not_isDone_reading hclient) hphase⟩
    · exact .inl hsome
  | @hangUp result hclient hphase =>
    have hnot : ¬ s.client.IsDone := fun ⟨result, hdone⟩ => hclient result hdone
    refine ⟨h.stands, fun hdone => absurd ⟨_, rfl⟩ hdone, .inr ⟨rfl, ?_⟩⟩
    exact h.error_of_ended hnot hphase

end

theorem stage_init (json : Json) {daemon : Daemon.Json} {hostname : Str} {line reply : Str}
    (hspeaks : Speaks json daemon ⟨hostname⟩ (Daemon.response engine relays caller ⟨hostname⟩)
      line reply) :
    Stage daemon engine relays caller (encode line ++ [0x0A])
      (Daemon.response engine relays caller ⟨hostname⟩)
      (dialogue json daemon engine relays caller hostname).init := by
  refine ⟨Daemon.stands_of_reachable ⟨[], rfl⟩, fun _ => rfl, ?_⟩
  simp only [dialogue, hspeaks.start]
  exact ⟨by simp, rfl, rfl⟩

/-- How far a handler is from its end, by its phase. -/
def awaits : Daemon.Phase → Nat
  | .reading => 1
  | .writing _ => 2
  | .ended _ => 0

/-- What a handler has to do for so long a reply: each byte is written, and will be read. -/
def handling (total : Nat) (s : Handler) : Nat :=
  2 * s.buffer.length + 2 * (total - s.written.length) + awaits s.phase

def Client.unwritten : Client → Nat
  | .writing rest => rest.length
  | .reading _ => 0
  | .done _ => 0

/-- What is still to be done before the client is. -/
def Dialogue.remaining (total : Nat) (s : Dialogue) : Nat :=
  4 * s.client.unwritten + 3 * s.up.length + handling total s.handler + s.down.length

theorem awaits_le (phase : Daemon.Phase) : awaits phase ≤ 2 := by
  cases phase <;> simp [awaits]

theorem handling_add_lt {s s' : Handler} {event : HandlerEvent} {total : Nat}
    (hlocal : isLocal event = true)
    (hstep : s.step daemon engine relays caller event = some s')
    (hle : s'.written.length ≤ total) :
    handling total s' + (s'.written.drop s.written.length).length < handling total s := by
  rw [List.length_drop]
  cases Handler.moves_of_step hstep with
  | receive => cases hlocal
  | line hphase hmem =>
    have hshorter := Daemon.length_behindLine_lt hmem
    have hawaits := awaits_le
      (Daemon.handleLine daemon engine relays caller (Daemon.firstLine s.buffer))
    simp only [handling, hphase, awaits] at hawaits ⊢
    omega
  | eof => cases hlocal
  | lastLine => cases hlocal
  | @part n rest hphase hpos hlt =>
    simp only [handling, hphase, awaits, List.length_append, List.length_take] at hle ⊢
    omega
  | @all rest hphase =>
    simp only [handling, hphase, awaits, List.length_append] at hle ⊢
    omega
  | fail hends =>
    cases hphase : s.phase with
    | ended result => exact absurd hphase (hends result)
    | reading =>
      simp only [handling, hphase, awaits]
      omega
    | writing rest =>
      simp only [handling, hphase, awaits]
      omega

/-- Whoever takes a step leaves less to be done. -/
theorem remaining_lt {s s' : Dialogue} {event : DialogueEvent} {total : Nat}
    (hstep : s.step json daemon engine relays caller event = some s')
    (hle : s'.handler.written.length ≤ total) (hnot : ¬ s'.client.IsDone) :
    s'.remaining total < s.remaining total := by
  cases Dialogue.moves_of_step hstep with
  | writePart hclient hpos hlt =>
    simp only [Dialogue.remaining, hclient, Client.unwritten, List.length_drop,
      List.length_append, List.length_take]
    omega
  | writeAll hclient hne =>
    have hpos := List.length_pos_iff.mpr hne
    simp only [Dialogue.remaining, hclient, Client.unwritten, List.length_append]
    omega
  | deliver hn hreceive =>
    cases Handler.moves_of_step hreceive with
    | receive hphase hmem hopen hne =>
      have hpos := List.length_pos_iff.mpr hne
      rw [List.length_take] at hpos
      simp only [Dialogue.remaining, handling, List.length_drop, List.length_append,
        List.length_take]
      omega
  | act hlocal hown =>
    have hlt := handling_add_lt hlocal hown hle
    simp only [Dialogue.remaining, List.length_append]
    omega
  | shut hclient => exact absurd ⟨_, hclient⟩ hnot
  | readPart hclient hpos hle' =>
    simp only [Dialogue.remaining, hclient, Client.unwritten, List.length_drop]
    omega
  | readLine => exact absurd ⟨_, rfl⟩ hnot
  | readEof => exact absurd ⟨_, rfl⟩ hnot
  | hangUp => exact absurd ⟨_, rfl⟩ hnot

theorem isDone_of_step {s s' : Dialogue} {event : DialogueEvent}
    (hstep : s.step json daemon engine relays caller event = some s') (h : s.client.IsDone) :
    s'.client.IsDone := by
  obtain ⟨result, hdone⟩ := h
  cases Dialogue.moves_of_step hstep with
  | writePart hclient => cases hclient.symm.trans hdone
  | writeAll hclient => cases hclient.symm.trans hdone
  | deliver => exact ⟨result, hdone⟩
  | act => exact ⟨result, hdone⟩
  | shut => exact ⟨result, hdone⟩
  | readPart hclient => cases hclient.symm.trans hdone
  | readLine hclient => cases hclient.symm.trans hdone
  | readEof hclient => cases hclient.symm.trans hdone
  | hangUp hclient => exact absurd hdone (hclient result)

section
variable {hostname : Str} {line reply : Str} {s : Dialogue}

/-- What has come is read. -/
theorem exists_read {got : Bytes} (hclient : s.client = .reading got) (hne : s.down ≠ []) :
    ∃ s', s.step json daemon engine relays caller (.read s.down.length) = some s' := by
  have hpos := List.length_pos_iff.mpr hne
  simp [Dialogue.step, hclient, hpos]

theorem exists_act {event : HandlerEvent} {handler : Handler} (hlocal : isLocal event = true)
    (hstep : s.handler.step daemon engine relays caller event = some handler) :
    ∃ s', s.step json daemon engine relays caller (.act event) = some s' := by
  simp [Dialogue.step, hlocal, hstep]

/-- The daemon waits for more only if the client has something to read. -/
theorem Stage.down_ne_nil
    (hspeaks : Speaks json daemon ⟨hostname⟩ (Daemon.response engine relays caller ⟨hostname⟩)
      line reply)
    (h : Stage daemon engine relays caller (encode line ++ [0x0A])
      (Daemon.response engine relays caller ⟨hostname⟩) s)
    {got : Bytes} (hclient : s.client = .reading got) (hphase : s.handler.phase = .reading)
    (hbuffer : 0x0A ∉ s.handler.buffer) (hup : s.up = []) : s.down ≠ [] := by
  obtain ⟨done, hstands⟩ := h.stands
  obtain ⟨hrequest, hnot, hdown⟩ := h.atClient hclient
  rw [hup, List.append_nil, hstands.received] at hrequest
  have hwhole := hstands.whole (h.isOpen (not_isDone_reading hclient))
  have hdone : done = encode line ++ [0x0A] := by
    apply (hspeaks.done_cases hwhole ⟨_, hrequest⟩).resolve_left
    rintro rfl
    rw [List.nil_append] at hrequest
    simp [hrequest] at hbuffer
  have hwritten := (hstands.atPhase hphase).2
  rw [hdone, hspeaks.replies, ← hdown] at hwritten
  intro hnil
  rw [hnil, List.append_nil] at hwritten
  simp [hwritten] at hnot

/-- Until the client is done, one of the two can go on, and need not fail. -/
theorem Stage.exists_step
    (hspeaks : Speaks json daemon ⟨hostname⟩ (Daemon.response engine relays caller ⟨hostname⟩)
      line reply)
    (h : Stage daemon engine relays caller (encode line ++ [0x0A])
      (Daemon.response engine relays caller ⟨hostname⟩) s)
    (hnot : ¬ s.client.IsDone) :
    ∃ event s', event.fails = false ∧ s.step json daemon engine relays caller event = some s' := by
  cases hclient : s.client with
  | writing rest =>
    have hpos := List.length_pos_iff.mpr (h.atClient hclient).1
    exact ⟨.write rest.length, _, rfl, by simp [Dialogue.step, hclient, hpos]; rfl⟩
  | done result => exact absurd ⟨result, hclient⟩ hnot
  | reading got =>
    cases hphase : s.handler.phase with
    | ended result =>
      by_cases hdown : s.down = []
      · exact ⟨.readEof, { s with client := .done (Nss.heard json got) }, rfl,
          by simp [Dialogue.step, hclient, hphase, hdown]⟩
      · obtain ⟨s', hread⟩ := exists_read hclient hdown
        exact ⟨_, s', rfl, hread⟩
    | writing rest =>
      have hsend : s.handler.step daemon engine relays caller (.send rest.length) =
          some { s.handler with phase := .reading, written := s.handler.written ++ rest } := by
        simp [Handler.step, hphase]
      obtain ⟨s', hact⟩ := exists_act rfl hsend
      exact ⟨_, s', rfl, hact⟩
    | reading =>
      by_cases hbuffer : 0x0A ∈ s.handler.buffer
      · have hline : s.handler.step daemon engine relays caller .line =
            some { s.handler with
              phase := Daemon.handleLine daemon engine relays caller
                (Daemon.firstLine s.handler.buffer)
              buffer := Daemon.behindLine s.handler.buffer } := by
          simp [Handler.step, hphase, hbuffer]
        obtain ⟨s', hact⟩ := exists_act rfl hline
        exact ⟨_, s', rfl, hact⟩
      · by_cases hup : s.up = []
        · obtain ⟨s', hread⟩ := exists_read hclient
            (h.down_ne_nil hspeaks hclient hphase hbuffer hup)
          exact ⟨_, s', rfl, hread⟩
        · have hopen := h.isOpen hnot
          refine ⟨.deliver s.up.length, { s with
            handler := { s.handler with
              buffer := s.handler.buffer ++ s.up
              received := s.handler.received ++ s.up }
            up := [] }, rfl, ?_⟩
          simp [Dialogue.step, Handler.step, hphase, hbuffer, hopen, hup]

theorem stage_of_run
    (hspeaks : Speaks json daemon ⟨hostname⟩ (Daemon.response engine relays caller ⟨hostname⟩)
      line reply) {events : List DialogueEvent}
    (hrun : (dialogue json daemon engine relays caller hostname).run
      (dialogue json daemon engine relays caller hostname).init events = some s) :
    Stage daemon engine relays caller (encode line ++ [0x0A])
      (Daemon.response engine relays caller ⟨hostname⟩) s := by
  apply System.run_invariant _ hrun (stage_init json hspeaks)
  intro s event s' hstep h
  exact stage_step hspeaks h hstep

/-- A run in which the client is not done has no more steps than there is to be done. -/
theorem length_le_of_run
    (hspeaks : Speaks json daemon ⟨hostname⟩ (Daemon.response engine relays caller ⟨hostname⟩)
      line reply) {events : List DialogueEvent}
    (hrun : (dialogue json daemon engine relays caller hostname).run
      (dialogue json daemon engine relays caller hostname).init events = some s)
    (hnot : ¬ s.client.IsDone) :
    events.length ≤ 4 * (encode line).length + 2 * (encode reply).length + 7 := by
  have hbound := (System.length_add_le_of_run
    (I := Stage daemon engine relays caller (encode line ++ [0x0A])
      (Daemon.response engine relays caller ⟨hostname⟩))
    (G := fun s => ¬ s.client.IsDone)
    (f := Dialogue.remaining (encode reply ++ [0x0A]).length)
    ?_ ?_ hrun (stage_init json hspeaks) hnot).2
  · have hinit : (dialogue json daemon engine relays caller hostname).init.remaining
        (encode reply ++ [0x0A]).length =
          4 * (encode line).length + 2 * (encode reply).length + 7 := by
      simp only [dialogue, hspeaks.start, Dialogue.remaining, Client.unwritten, handling, awaits,
        List.length_append, List.length_singleton, List.length_nil]
      omega
    omega
  · intro s event s' hstep h
    exact stage_step hspeaks h hstep
  · intro s event s' hstep h h' hgoing
    refine ⟨fun hdone => hgoing (isDone_of_step hstep hdone), ?_⟩
    exact remaining_lt hstep (h'.written_isPrefix hspeaks hgoing).length_le hgoing

theorem Speaks.queryDaemon
    (h : Speaks json daemon ⟨hostname⟩ (Daemon.response engine relays caller ⟨hostname⟩)
      line reply) :
    queryDaemon json (daemonSocket daemon engine relays caller) hostname =
      some (some (Daemon.response engine relays caller ⟨hostname⟩)) :=
  queryDaemon_daemonSocket ⟨⟨line, h.request, h.requestLine, h.requestEnd, h.understood⟩,
    ⟨reply, h.response, h.responseLine, h.read⟩⟩

end

/-- In whatever pieces and order the bytes go, and whenever the daemon's end fails, a lookup
comes to its end: while it has not, it has taken so many steps at most and can take another,
which is no failure; and it ends with what the daemon answers, or with nothing if the
daemon's end has failed. -/
theorem lookup_ends (json : Json) (daemon : Daemon.Json) (engine : PolicyEngine cel)
    (relays : Relays) (caller : Caller) (hostname line reply : Str)
    (hspeaks : Speaks json daemon ⟨hostname⟩ (Daemon.response engine relays caller ⟨hostname⟩)
      line reply)
    (events : List DialogueEvent) (s : Dialogue)
    (hrun : (dialogue json daemon engine relays caller hostname).run
      (dialogue json daemon engine relays caller hostname).init events = some s) :
    (∀ result, s.client = .done result →
      queryDaemon json (daemonSocket daemon engine relays caller) hostname = some result ∨
        result = none ∧ ∃ e, s.handler.phase = .ended (.error e)) ∧
    ((∀ result, s.client ≠ .done result) →
      events.length ≤ 4 * (encode line).length + 2 * (encode reply).length + 7 ∧
      ∃ event s', event.fails = false ∧
        (dialogue json daemon engine relays caller hostname).step s event = some s') := by
  have hstage := stage_of_run hspeaks hrun
  constructor
  · intro result hdone
    rcases hstage.atClient hdone with rfl | hfailed
    · exact .inl hspeaks.queryDaemon
    · exact .inr hfailed
  · intro hgoing
    have hnot : ¬ s.client.IsDone := fun ⟨result, hdone⟩ => hgoing result hdone
    exact ⟨length_le_of_run hspeaks hrun hnot, hstage.exists_step hspeaks hnot⟩

/-- Nothing that `plain` reads is without its end of line. -/
theorem heard_plain (got : Bytes) (h : got <+: encode
    "\x7b\"verdict\":\"Resolved\",\"addresses\":[\"10.0.0.1\"]\x7d".toList) :
    heard Json.plain got = none := by
  have hall : ∀ got ∈ (encode
      "\x7b\"verdict\":\"Resolved\",\"addresses\":[\"10.0.0.1\"]\x7d".toList).inits,
      heard Json.plain got = none := by decide +kernel
  exact hall got ((List.mem_inits _ _).mpr h)

/-- The request and the reply in two pieces each, the request's first while the second is
not written. -/
theorem lookup_ends_resolved :
    ∃ s, (dialogue Json.plain Daemon.Json.plain PolicyEngine.testEngine ⟨∅⟩ .unknown
        "example.local".toList).run
      (dialogue Json.plain Daemon.Json.plain PolicyEngine.testEngine ⟨∅⟩ .unknown
        "example.local".toList).init
      [.write 5, .deliver 5, .write 24, .deliver 24, .act .line, .act (.send 20), .read 7,
        .act (.send 28), .read 41] = some s ∧
      ∃ result, s.client = .done (some result) ∧
        queryDaemon Json.plain
          (daemonSocket Daemon.Json.plain PolicyEngine.testEngine ⟨∅⟩ .unknown)
          "example.local".toList = some (some result) := by
  have hspeaks : Speaks Json.plain Daemon.Json.plain ⟨"example.local".toList⟩
      (Daemon.response PolicyEngine.testEngine ⟨∅⟩ .unknown ⟨"example.local".toList⟩)
      ("\x7b\"hostname\":\"example.local\"\x7d".toList)
      ("\x7b\"verdict\":\"Resolved\",\"addresses\":[\"10.0.0.1\"]\x7d".toList) :=
    ⟨rfl, by decide, by decide, by decide, rfl, by decide, by decide,
      fun got hgot => .inl (heard_plain got hgot)⟩
  obtain ⟨s, result, hrun, hdone⟩ : ∃ s result,
      (dialogue Json.plain Daemon.Json.plain PolicyEngine.testEngine ⟨∅⟩ .unknown
          "example.local".toList).run
        (dialogue Json.plain Daemon.Json.plain PolicyEngine.testEngine ⟨∅⟩ .unknown
          "example.local".toList).init
        [.write 5, .deliver 5, .write 24, .deliver 24, .act .line, .act (.send 20), .read 7,
          .act (.send 28), .read 41] = some s ∧ s.client = .done (some result) :=
    ⟨_, _, rfl, rfl⟩
  have hends := lookup_ends _ _ _ _ _ _ _ _ hspeaks _ s hrun
  exact ⟨s, hrun, result, hdone, (hends.1 _ hdone).resolve_right (by simp)⟩

end Deezns.Nss
