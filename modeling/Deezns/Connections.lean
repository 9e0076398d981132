import Deezns.Runs
import Deezns.Sessions

/-!
# Connections to the policy socket

The handler of a connection gets the client's bytes in pieces of any size and writes
its replies in pieces. At any time it has written a beginning of what it writes for the
lines it was sent, and it is behind only with a line that is not complete.
-/
namespace Deezns.Daemon

open Octets (Bytes)
open Utf8 (Str encode)

variable {cel : Cel} (json : Json) (engine : PolicyEngine cel) (relays : Relays) (caller : Caller)

inductive Phase where
  /-- In `next_line`. -/
  | reading
  /-- In `write_all`, with so much to write. -/
  | writing (rest : Bytes)
  | ended (result : Except IoError Unit)
  deriving DecidableEq

structure Handler where
  phase : Phase
  /-- What was received and is not handled. -/
  buffer : Bytes
  atEof : Bool
  /-- All that was received, and all that was written. -/
  received : Bytes
  written : Bytes

inductive HandlerEvent where
  | receive (bytes : Bytes)
  | line
  | eof
  | send (n : Nat)
  | fail (e : IoError)

/-- A turn of the loop, up to the next await. -/
def handleLine (raw : Bytes) : Phase :=
  match lineText raw with
  | .error e => .ended (.error e)
  | .ok line =>
    match json.fromStr line with
    | none => .reading
    | some req =>
      match json.toVec (response engine relays caller req) with
      | .error e => .ended (.error e)
      | .ok buf => .writing (buf ++ [0x0A])

def firstLine (buffer : Bytes) : Bytes := buffer.takeWhile (· ≠ 0x0A) ++ [0x0A]

def behindLine (buffer : Bytes) : Bytes := (buffer.dropWhile (· ≠ 0x0A)).tail

/-- What the handler does in one of its awaits, and behind it. -/
def Handler.step (s : Handler) : HandlerEvent → Option Handler
  | .receive bytes =>
    match s.phase with
    | .reading =>
      if 0x0A ∉ s.buffer ∧ s.atEof = false ∧ bytes ≠ [] then
        some { s with buffer := s.buffer ++ bytes, received := s.received ++ bytes }
      else none
    | _ => none
  | .line =>
    match s.phase with
    | .reading =>
      if 0x0A ∈ s.buffer then
        some { s with
          phase := handleLine json engine relays caller (firstLine s.buffer)
          buffer := behindLine s.buffer }
      else none
    | _ => none
  | .eof =>
    match s.phase with
    | .reading =>
      if 0x0A ∈ s.buffer then none
      else if s.buffer = [] then some { s with phase := .ended (.ok ()), atEof := true }
      else
        -- the last line, which nothing ends
        some { s with
          phase := handleLine json engine relays caller s.buffer
          buffer := []
          atEof := true }
    | _ => none
  | .send n =>
    match s.phase with
    | .writing rest =>
      if 0 < n ∧ n < rest.length then
        some { s with phase := .writing (rest.drop n), written := s.written ++ rest.take n }
      else if n = rest.length then
        some { s with phase := .reading, written := s.written ++ rest }
      else none
    | _ => none
  | .fail e =>
    match s.phase with
    | .ended _ => none
    | _ => some { s with phase := .ended (.error e) }

def handler : System Handler HandlerEvent where
  init := ⟨.reading, [], false, [], []⟩
  step := Handler.step json engine relays caller

variable {json engine relays caller}

/-- All that the handler can do. -/
inductive Handler.Moves (json : Json) (engine : PolicyEngine cel) (relays : Relays)
    (caller : Caller) (s : Handler) : HandlerEvent → Handler → Prop where
  | receive {bytes : Bytes} (hphase : s.phase = .reading) (hnot : 0x0A ∉ s.buffer)
      (hopen : s.atEof = false) (hne : bytes ≠ []) :
      Moves json engine relays caller s (.receive bytes)
        { s with buffer := s.buffer ++ bytes, received := s.received ++ bytes }
  | line (hphase : s.phase = .reading) (hmem : 0x0A ∈ s.buffer) :
      Moves json engine relays caller s .line
        { s with
          phase := handleLine json engine relays caller (firstLine s.buffer)
          buffer := behindLine s.buffer }
  | eof (hphase : s.phase = .reading) (hnil : s.buffer = []) :
      Moves json engine relays caller s .eof { s with phase := .ended (.ok ()), atEof := true }
  | lastLine (hphase : s.phase = .reading) (hne : s.buffer ≠ []) (hnot : 0x0A ∉ s.buffer) :
      Moves json engine relays caller s .eof
        { s with
          phase := handleLine json engine relays caller s.buffer
          buffer := []
          atEof := true }
  | part {n : Nat} {rest : Bytes} (hphase : s.phase = .writing rest) (hpos : 0 < n)
      (hlt : n < rest.length) :
      Moves json engine relays caller s (.send n)
        { s with phase := .writing (rest.drop n), written := s.written ++ rest.take n }
  | all {rest : Bytes} (hphase : s.phase = .writing rest) :
      Moves json engine relays caller s (.send rest.length)
        { s with phase := .reading, written := s.written ++ rest }
  | fail {e : IoError} (hends : ∀ result, s.phase ≠ .ended result) :
      Moves json engine relays caller s (.fail e) { s with phase := .ended (.error e) }

theorem Handler.moves_of_step {s s' : Handler} {event : HandlerEvent}
    (h : s.step json engine relays caller event = some s') :
    s.Moves json engine relays caller event s' := by
  obtain ⟨phase, buffer, atEof, received, written⟩ := s
  cases phase with
  | reading =>
    cases event with
    | receive bytes =>
      simp only [step, Option.ite_none_right_eq_some, Option.some.injEq] at h
      obtain ⟨⟨hnot, hopen, hne⟩, rfl⟩ := h
      exact .receive rfl hnot hopen hne
    | line =>
      simp only [step, Option.ite_none_right_eq_some, Option.some.injEq] at h
      obtain ⟨hmem, rfl⟩ := h
      exact .line rfl hmem
    | eof =>
      simp only [step, Option.ite_none_left_eq_some] at h
      obtain ⟨hnot, h⟩ := h
      split at h
      · next hnil =>
        cases h
        exact .eof rfl hnil
      · next hne =>
        cases h
        exact .lastLine rfl hne hnot
    | send n => simp [step] at h
    | fail e =>
      simp only [step, Option.some.injEq] at h
      subst h
      exact .fail (by simp)
  | writing rest =>
    cases event with
    | send n =>
      simp only [step] at h
      split at h
      · next hpart =>
        cases h
        exact .part rfl hpart.1 hpart.2
      · rw [Option.ite_none_right_eq_some, Option.some.injEq] at h
        obtain ⟨rfl, rfl⟩ := h
        exact .all rfl
    | fail e =>
      simp only [step, Option.some.injEq] at h
      subst h
      exact .fail (by simp)
    | receive bytes => simp [step] at h
    | line => simp [step] at h
    | eof => simp [step] at h
  | ended result => cases event <;> simp [step] at h

/-- Lines behind others are handled if these do not end the connection. -/
theorem handleConnection_append_eq (before after : Lines) :
    handleConnection json engine relays caller (before ++ after) =
      match (handleConnection json engine relays caller before).2 with
      | .ok _ =>
        ((handleConnection json engine relays caller before).1 ++
            (handleConnection json engine relays caller after).1,
          (handleConnection json engine relays caller after).2)
      | .error _ => handleConnection json engine relays caller before := by
  induction before with
  | nil => rfl
  | cons read before ih =>
    cases read with
    | error e => rfl
    | ok line =>
      cases hline : json.fromStr line with
      | none =>
        rw [List.cons_append, handleConnection_of_none _ _ _ _ hline,
          handleConnection_of_none _ _ _ _ hline]
        exact ih
      | some req =>
        cases hbuf : json.toVec (response engine relays caller req) with
        | error e => simp [handleConnection, hline, hbuf]
        | ok buf =>
          rw [List.cons_append, handleConnection_of_request _ _ _ _ hline hbuf,
            handleConnection_of_request _ _ _ _ hline hbuf, ih]
          generalize handleConnection json engine relays caller before = out
          obtain ⟨replies, result⟩ := out
          cases result <;> rfl

/-- Nothing but whole lines. -/
def EndsLine (bytes : Bytes) : Prop := bytes = [] ∨ ∃ init, bytes = init ++ [0x0A]

theorem lines_append_of_endsLine {bytes : Bytes} (h : EndsLine bytes) (more : Bytes) :
    lines (bytes ++ more) = lines bytes ++ lines more := by
  rcases h with rfl | ⟨init, rfl⟩
  · rfl
  · rw [List.append_assoc, List.singleton_append, lines_append]

theorem lines_of_unfinished {bytes : Bytes} (hne : bytes ≠ []) (h : 0x0A ∉ bytes) :
    lines bytes = [lineText bytes] := by
  have hraw : rawLines bytes = [bytes] := by
    induction bytes with
    | nil => exact absurd rfl hne
    | cons b bs ih =>
      rw [List.mem_cons, not_or] at h
      rw [rawLines, if_neg (Ne.symm h.1)]
      by_cases hnil : bs = []
      · subst hnil
        rfl
      · rw [ih hnil h.2]
  rw [lines, hraw, List.map_singleton]

theorem firstLine_append_behindLine {buffer : Bytes} (h : 0x0A ∈ buffer) :
    firstLine buffer ++ behindLine buffer = buffer := by
  induction buffer with
  | nil => cases h
  | cons b bs ih =>
    by_cases hb : b = 0x0A
    · subst hb
      rfl
    · have hbs : 0x0A ∈ bs := (List.mem_cons.mp h).resolve_left (Ne.symm hb)
      have hcons : firstLine (b :: bs) ++ behindLine (b :: bs) =
          b :: (firstLine bs ++ behindLine bs) := by
        simp [firstLine, behindLine, hb]
      rw [hcons, ih hbs]

theorem lines_firstLine (buffer : Bytes) :
    lines (firstLine buffer) = [lineText (firstLine buffer)] := by
  have hnot : 0x0A ∉ buffer.takeWhile (· ≠ 0x0A) := by
    intro hmem
    simpa using List.mem_takeWhile_imp hmem
  rw [lines, firstLine, rawLines_concat hnot, List.map_singleton]

/-- What becomes of a line is what is written for it. -/
theorem handleLine_cases (json : Json) (engine : PolicyEngine cel) (relays : Relays)
    (caller : Caller) (raw : Bytes) :
    (handleLine json engine relays caller raw = .reading ∧
      handleConnection json engine relays caller [lineText raw] = ([], .ok ())) ∨
    (∃ reply, handleLine json engine relays caller raw = .writing reply ∧
      handleConnection json engine relays caller [lineText raw] = ([reply], .ok ())) ∨
    ∃ e, handleLine json engine relays caller raw = .ended (.error e) ∧
      handleConnection json engine relays caller [lineText raw] = ([], .error e) := by
  cases hraw : lineText raw with
  | error e => exact .inr (.inr ⟨e, by simp [handleLine, hraw], rfl⟩)
  | ok line =>
    cases hline : json.fromStr line with
    | none => exact .inl ⟨by simp [handleLine, hraw, hline], by simp [handleConnection, hline]⟩
    | some req =>
      cases hbuf : json.toVec (response engine relays caller req) with
      | error e =>
        exact .inr (.inr ⟨e, by simp [handleLine, hraw, hline, hbuf],
          by simp [handleConnection, hline, hbuf]⟩)
      | ok buf =>
        exact .inr (.inl ⟨buf ++ [0x0A], by simp [handleLine, hraw, hline, hbuf],
          by simp [handleConnection, hline, hbuf]⟩)

/-- What is written for so many bytes. -/
def replies (json : Json) (engine : PolicyEngine cel) (relays : Relays) (caller : Caller)
    (bytes : Bytes) : Bytes :=
  (handleConnection json engine relays caller (lines bytes)).1.flatten

/-- What is known in a phase, where so much was handled. -/
def AtPhase (json : Json) (engine : PolicyEngine cel) (relays : Relays) (caller : Caller)
    (done written : Bytes) : Phase → Prop
  | .reading => (handleConnection json engine relays caller (lines done)).2 = .ok () ∧
      written = replies json engine relays caller done
  | .writing rest => (handleConnection json engine relays caller (lines done)).2 = .ok () ∧
      written ++ rest = replies json engine relays caller done
  | .ended (.ok ()) => written = replies json engine relays caller done
  | .ended (.error _) => written <+: replies json engine relays caller done

/-- Where the handler stands, which has handled so much of what it received. -/
structure Stands (json : Json) (engine : PolicyEngine cel) (relays : Relays) (caller : Caller)
    (s : Handler) (done : Bytes) : Prop where
  received : s.received = done ++ s.buffer
  whole : s.atEof = false → EndsLine done
  atEnd : s.atEof = true → s.buffer = []
  ended : s.phase = .ended (.ok ()) → s.atEof = true
  phase : AtPhase json engine relays caller done s.written s.phase

theorem handleConnection_concat {done raw : Bytes}
    (hok : (handleConnection json engine relays caller (lines done)).2 = .ok ())
    (hlines : lines (done ++ raw) = lines done ++ [lineText raw]) :
    handleConnection json engine relays caller (lines (done ++ raw)) =
      ((handleConnection json engine relays caller (lines done)).1 ++
          (handleConnection json engine relays caller [lineText raw]).1,
        (handleConnection json engine relays caller [lineText raw]).2) := by
  rw [hlines, handleConnection_append_eq, hok]

/-- One more line is handled. -/
theorem atPhase_handleLine {done raw written : Bytes}
    (h : AtPhase json engine relays caller done written .reading)
    (hlines : lines (done ++ raw) = lines done ++ [lineText raw]) :
    AtPhase json engine relays caller (done ++ raw) written
      (handleLine json engine relays caller raw) := by
  obtain ⟨hok, hwritten⟩ := h
  have hconcat := handleConnection_concat hok hlines
  rcases handleLine_cases json engine relays caller raw with
    ⟨hline, hraw⟩ | ⟨reply, hline, hraw⟩ | ⟨e, hline, hraw⟩
  · rw [hline]
    rw [hraw] at hconcat
    simp only [AtPhase, replies, hconcat, List.append_nil]
    exact ⟨trivial, hwritten⟩
  · rw [hline]
    rw [hraw] at hconcat
    simp only [AtPhase, replies, hconcat, List.flatten_append, List.flatten_singleton]
    exact ⟨trivial, congrArg (· ++ reply) hwritten⟩
  · rw [hline]
    rw [hraw] at hconcat
    simp only [AtPhase, replies, hconcat, List.append_nil]
    rw [hwritten]
    exact List.prefix_rfl

theorem ne_ended_of_handleLine (raw : Bytes) :
    handleLine json engine relays caller raw ≠ .ended (.ok ()) := by
  rcases handleLine_cases json engine relays caller raw with
    ⟨hline, -⟩ | ⟨reply, hline, -⟩ | ⟨e, hline, -⟩ <;> simp [hline]

theorem endsLine_append_firstLine (done buffer : Bytes) : EndsLine (done ++ firstLine buffer) :=
  .inr ⟨done ++ buffer.takeWhile (· ≠ 0x0A), (List.append_assoc _ _ _).symm⟩

namespace Stands

variable {s s' : Handler} {done : Bytes} (h : Stands json engine relays caller s done)
include h

theorem atEof_of_ne_nil (hne : s.buffer ≠ []) : s.atEof = false := by
  cases heof : s.atEof with
  | false => rfl
  | true => exact absurd (h.atEnd heof) hne

theorem atPhase {phase : Phase} (hphase : s.phase = phase) :
    AtPhase json engine relays caller done s.written phase := by
  rw [← hphase]
  exact h.phase

/-- The first line of the buffer is handled. -/
theorem line (hphase : s.phase = .reading) (hmem : 0x0A ∈ s.buffer) :
    Stands json engine relays caller
      { s with
        phase := handleLine json engine relays caller (firstLine s.buffer)
        buffer := behindLine s.buffer } (done ++ firstLine s.buffer) := by
  have hopen := h.atEof_of_ne_nil (List.ne_nil_of_mem hmem)
  constructor
  · rw [List.append_assoc, firstLine_append_behindLine hmem]
    exact h.received
  · intro _
    exact endsLine_append_firstLine done s.buffer
  · intro heof
    cases hopen.symm.trans heof
  · intro heq
    exact absurd heq (ne_ended_of_handleLine _)
  · apply atPhase_handleLine (h.atPhase hphase)
    rw [lines_append_of_endsLine (h.whole hopen), lines_firstLine]

/-- At the end of the input the last line is, if there is one. -/
theorem lastLine (hphase : s.phase = .reading) (hne : s.buffer ≠ []) (hnot : 0x0A ∉ s.buffer) :
    Stands json engine relays caller
      { s with
        phase := handleLine json engine relays caller s.buffer
        buffer := []
        atEof := true } (done ++ s.buffer) := by
  have hopen := h.atEof_of_ne_nil hne
  constructor
  · rw [List.append_nil]
    exact h.received
  · intro heof
    cases heof
  · intro _
    rfl
  · intro _
    rfl
  · apply atPhase_handleLine (h.atPhase hphase)
    rw [lines_append_of_endsLine (h.whole hopen), lines_of_unfinished hne hnot]

theorem fail (hends : ∀ result, s.phase ≠ .ended result) (e : IoError) :
    Stands json engine relays caller { s with phase := .ended (.error e) } done := by
  refine ⟨h.received, h.whole, h.atEnd, ?_, ?_⟩
  · intro heq
    cases heq
  · cases hphase : s.phase with
    | reading => exact ⟨[], (List.append_nil _).trans (h.atPhase hphase).2⟩
    | writing rest => exact ⟨rest, (h.atPhase hphase).2⟩
    | ended result => exact absurd hphase (hends result)

theorem step {event : HandlerEvent} (hstep : s.step json engine relays caller event = some s') :
    ∃ done', Stands json engine relays caller s' done' := by
  cases Handler.moves_of_step hstep with
  | receive hphase hnot hopen =>
    refine ⟨done, ?_, h.whole, ?_, h.ended, h.phase⟩
    · rw [← List.append_assoc, ← h.received]
    · intro heof
      cases hopen.symm.trans heof
  | line hphase hmem => exact ⟨_, h.line hphase hmem⟩
  | eof hphase hnil =>
    refine ⟨done, h.received, ?_, fun _ => hnil, fun _ => rfl, (h.atPhase hphase).2⟩
    intro heof
    cases heof
  | lastLine hphase hne hnot => exact ⟨_, h.lastLine hphase hne hnot⟩
  | part hphase =>
    obtain ⟨hok, hwritten⟩ := h.atPhase hphase
    refine ⟨done, h.received, h.whole, h.atEnd, ?_, hok, ?_⟩
    · intro heq
      cases heq
    · rw [List.append_assoc, List.take_append_drop]
      exact hwritten
  | all hphase =>
    refine ⟨done, h.received, h.whole, h.atEnd, ?_, h.atPhase hphase⟩
    intro heq
    cases heq
  | fail hends => exact ⟨done, h.fail hends _⟩

end Stands

theorem stands_of_reachable {s : Handler}
    (h : (handler json engine relays caller).Reachable s) :
    ∃ done, Stands json engine relays caller s done := by
  apply h.invariant
  · refine ⟨[], rfl, fun _ => .inl rfl, fun _ => rfl, ?_, rfl, rfl⟩
    intro heq
    cases heq
  · rintro s event s' hstep ⟨done, hstands⟩
    exact hstands.step hstep

/-- What is written for a beginning of the input begins what is written for all. -/
theorem Stands.prefix_replies {s : Handler} {done : Bytes}
    (h : Stands json engine relays caller s done) :
    replies json engine relays caller done <+: replies json engine relays caller s.received := by
  rw [h.received]
  cases heof : s.atEof with
  | true =>
    rw [h.atEnd heof, List.append_nil]
  | false =>
    unfold replies
    rw [lines_append_of_endsLine (h.whole heof)]
    cases hresult : (handleConnection json engine relays caller (lines done)).2 with
    | ok result =>
      rw [handleConnection_append_eq, hresult, List.flatten_append]
      exact List.prefix_append _ _
    | error e =>
      rw [handleConnection_append_eq, hresult]

theorem Stands.written_isPrefix {s : Handler} {done : Bytes}
    (h : Stands json engine relays caller s done) :
    s.written <+: replies json engine relays caller done := by
  cases hphase : s.phase with
  | reading => exact ⟨[], (List.append_nil _).trans (h.atPhase hphase).2⟩
  | writing rest => exact ⟨rest, (h.atPhase hphase).2⟩
  | ended result =>
    cases result with
    | ok _ => exact ⟨[], (List.append_nil _).trans (h.atPhase hphase)⟩
    | error e => exact h.atPhase hphase

/-- The handler waits for more of a line, or has ended. -/
def Handler.Waits (s : Handler) : Prop :=
  (s.phase = .reading ∧ 0x0A ∉ s.buffer) ∨ ∃ result, s.phase = .ended result

/-- A step that needs nothing of the client but that it reads. -/
def HandlerEvent.isOwn : HandlerEvent → Bool
  | .line => true
  | .send _ => true
  | .receive _ => false
  | .eof => false
  | .fail _ => false

theorem length_behindLine_lt {buffer : Bytes} (h : 0x0A ∈ buffer) :
    (behindLine buffer).length < buffer.length := by
  have hlength := congrArg List.length (firstLine_append_behindLine h)
  simp only [List.length_append, firstLine, List.length_singleton] at hlength
  omega

/-- A reply is written, if there is one to be written. -/
theorem exists_sent (json : Json) (engine : PolicyEngine cel) (relays : Relays) (caller : Caller)
    (s : Handler) : ∃ events t,
    (handler json engine relays caller).run s events = some t ∧
      (∀ event ∈ events, event.isOwn = true) ∧ t.received = s.received ∧ t.buffer = s.buffer ∧
      ∀ rest, t.phase ≠ .writing rest := by
  cases hphase : s.phase with
  | reading => exact ⟨[], s, rfl, by simp, rfl, rfl, by simp [hphase]⟩
  | ended result => exact ⟨[], s, rfl, by simp, rfl, rfl, by simp [hphase]⟩
  | writing rest =>
    have hsend : (handler json engine relays caller).step s (.send rest.length) =
        some { s with phase := .reading, written := s.written ++ rest } := by
      simp [handler, Handler.step, hphase]
    refine ⟨[.send rest.length], _,
      (System.run_cons_eq_some_iff _ _ _ _).mpr ⟨_, hsend, rfl⟩, ?_, rfl, rfl, ?_⟩
    · intro event hevent
      rw [List.mem_singleton.mp hevent]
      rfl
    · intro rest' heq
      cases heq

/-- By itself the handler goes on until it has handled all whole lines. -/
theorem exists_waits (json : Json) (engine : PolicyEngine cel) (relays : Relays) (caller : Caller)
    (s : Handler) : ∃ events t,
    (handler json engine relays caller).run s events = some t ∧
      (∀ event ∈ events, event.isOwn = true) ∧ t.received = s.received ∧ t.Waits := by
  induction hn : s.buffer.length using Nat.strong_induction_on generalizing s with
  | _ n ih =>
    obtain ⟨sends, t, hsends, hown, hreceived, hbuffer, hnot⟩ :=
      exists_sent json engine relays caller s
    cases hphase : t.phase with
    | writing rest => exact absurd hphase (hnot rest)
    | ended result => exact ⟨sends, t, hsends, hown, hreceived, .inr ⟨result, hphase⟩⟩
    | reading =>
      by_cases hmem : 0x0A ∈ t.buffer
      · obtain ⟨next, hline, hnext, hlt⟩ : ∃ next,
            (handler json engine relays caller).step t .line = some next ∧
              next.received = t.received ∧ next.buffer.length < n := by
          refine ⟨{ t with
            phase := handleLine json engine relays caller (firstLine t.buffer)
            buffer := behindLine t.buffer }, by simp [handler, Handler.step, hphase, hmem], rfl, ?_⟩
          rw [← hn, ← hbuffer]
          exact length_behindLine_lt hmem
        obtain ⟨events, t', hrun, hown', hreceived', hwaits⟩ := ih _ hlt next rfl
        refine ⟨sends ++ .line :: events, t', ?_, ?_, ?_, hwaits⟩
        · exact System.run_append_of_run hsends
            ((System.run_cons_eq_some_iff _ _ _ _).mpr ⟨_, hline, hrun⟩)
        · intro event hevent
          rcases List.mem_append.mp hevent with hevent | hevent
          · exact hown event hevent
          · rcases List.mem_cons.mp hevent with rfl | hevent
            · rfl
            · exact hown' event hevent
        · exact hreceived'.trans (hnext.trans hreceived)
      · exact ⟨sends, t, hsends, hown, hreceived, .inl ⟨hphase, hmem⟩⟩

/-- Whatever pieces the client's bytes come in and its replies are taken in: what was
written begins what is written for all that was received, and is all of it at the end
of the connection; and what is still to be written for whole lines can be written at
any time, unless the connection ends with an error. -/
theorem handler_keeps_up (json : Json) (engine : PolicyEngine cel) (relays : Relays)
    (caller : Caller) {s : Handler} (h : (handler json engine relays caller).Reachable s) :
    s.written <+: replies json engine relays caller s.received ∧
    (s.phase = .ended (.ok ()) → s.written = replies json engine relays caller s.received) ∧
    ∃ events t, (handler json engine relays caller).run s events = some t ∧
      (∀ event ∈ events, event.isOwn = true) ∧ t.received = s.received ∧
      ((∃ e, t.phase = .ended (.error e)) ∨
        ∃ done, t.received = done ++ t.buffer ∧ 0x0A ∉ t.buffer ∧
          t.written = replies json engine relays caller done) := by
  obtain ⟨done, hstands⟩ := stands_of_reachable h
  refine ⟨hstands.written_isPrefix.trans hstands.prefix_replies, ?_, ?_⟩
  · intro hphase
    rw [hstands.received, hstands.atEnd (hstands.ended hphase), List.append_nil]
    exact hstands.atPhase hphase
  · obtain ⟨events, t, hrun, hown, hreceived, hwaits⟩ := exists_waits json engine relays caller s
    obtain ⟨first, hfirst⟩ := h
    obtain ⟨done', hstands'⟩ := stands_of_reachable
      (⟨first ++ events, System.run_append_of_run hfirst hrun⟩ :
        (handler json engine relays caller).Reachable t)
    refine ⟨events, t, hrun, hown, hreceived, ?_⟩
    rcases hwaits with ⟨hphase, hnot⟩ | ⟨result, hphase⟩
    · exact .inr ⟨done', hstands'.received, hnot, (hstands'.atPhase hphase).2⟩
    · cases result with
      | error e => exact .inl ⟨e, hphase⟩
      | ok _ =>
        have hnil := hstands'.atEnd (hstands'.ended hphase)
        exact .inr ⟨done', hstands'.received, by simp [hnil], hstands'.atPhase hphase⟩

theorem handler_keeps_up_pieces : ∃ s,
    (handler Json.plain PolicyEngine.testEngine ⟨∅⟩ .unknown).run
      (handler Json.plain PolicyEngine.testEngine ⟨∅⟩ .unknown).init
      [.receive ((encode testLine).take 10), .receive ((encode testLine).drop 10 ++ [0x0A]),
        .line, .send 20, .send (testReply.length - 20), .eof] = some s ∧
      s.received = encode testLine ++ [0x0A] ∧
      s.written = replies Json.plain PolicyEngine.testEngine ⟨∅⟩ .unknown s.received := by
  obtain ⟨s, hrun, hreceived, hended⟩ : ∃ s,
      (handler Json.plain PolicyEngine.testEngine ⟨∅⟩ .unknown).run
        (handler Json.plain PolicyEngine.testEngine ⟨∅⟩ .unknown).init
        [.receive ((encode testLine).take 10), .receive ((encode testLine).drop 10 ++ [0x0A]),
          .line, .send 20, .send (testReply.length - 20), .eof] = some s ∧
        s.received = encode testLine ++ [0x0A] ∧ s.phase = .ended (.ok ()) :=
    ⟨_, rfl, rfl, rfl⟩
  exact ⟨s, hrun, hreceived, (handler_keeps_up _ _ _ _ ⟨_, hrun⟩).2.1 hended⟩

end Deezns.Daemon
