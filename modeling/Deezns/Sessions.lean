import Deezns.Daemon
import Deezns.PolicyLaws
import Mathlib.Data.List.Forall2

/-!
# Sessions on the policy socket

There are no numbers on requests or responses: a client counts lines. Each
request gets one line, which depends on nothing but the request; a line that is
no request gets none.
-/
namespace Deezns.Daemon

open Octets (Bytes)
open Utf8 (Str encode)

variable {cel : Cel} (json : Json) (engine : PolicyEngine cel) (relays : Relays) (caller : Caller)

theorem handleConnection_of_none {line : Str} (h : json.fromStr line = none) (rest : Lines) :
    handleConnection json engine relays caller (.ok line :: rest) =
      handleConnection json engine relays caller rest := by
  rw [handleConnection, h]

theorem handleConnection_of_request {line : Str} {req : ResolveRequest} {buf : Bytes}
    (h : json.fromStr line = some req)
    (hbuf : json.toVec (response engine relays caller req) = .ok buf) (rest : Lines) :
    handleConnection json engine relays caller (.ok line :: rest) =
      ((buf ++ [0x0A]) :: (handleConnection json engine relays caller rest).1,
        (handleConnection json engine relays caller rest).2) := by
  rw [handleConnection, h]
  simp only [hbuf]

/-- The line that answers a request. -/
def Answers (line : Str) (reply : Bytes) : Prop :=
  ∃ req buf, json.fromStr line = some req ∧
    json.toVec (response engine relays caller req) = .ok buf ∧ 0x0A ∉ buf ∧ reply = buf ++ [0x0A]

/-- If the line is a request, its response can be written on a line. -/
def Writes (line : Str) : Prop :=
  ∀ req, json.fromStr line = some req →
    ∃ buf, json.toVec (response engine relays caller req) = .ok buf ∧ 0x0A ∉ buf

variable {json engine relays caller}

theorem handleConnection_append {before : List Str}
    (h : ∀ line ∈ before, Writes json engine relays caller line) (after : Lines) :
    handleConnection json engine relays caller (before.map .ok ++ after) =
      ((handleConnection json engine relays caller (before.map .ok)).1 ++
          (handleConnection json engine relays caller after).1,
        (handleConnection json engine relays caller after).2) := by
  induction before with
  | nil => rfl
  | cons line before ih =>
    rw [List.forall_mem_cons] at h
    rw [List.map_cons, List.cons_append]
    cases hline : json.fromStr line with
    | none =>
      rw [handleConnection_of_none _ _ _ _ hline, handleConnection_of_none _ _ _ _ hline, ih h.2]
    | some req =>
      obtain ⟨buf, hbuf, _⟩ := h.1 req hline
      rw [handleConnection_of_request _ _ _ _ hline hbuf,
        handleConnection_of_request _ _ _ _ hline hbuf, ih h.2]
      rfl

/-- One response for each request. -/
theorem forall₂_answers {lines : List Str}
    (h : ∀ line ∈ lines, Writes json engine relays caller line) :
    List.Forall₂ (Answers json engine relays caller)
      (lines.filter (fun line => (json.fromStr line).isSome))
      (handleConnection json engine relays caller (lines.map .ok)).1 := by
  induction lines with
  | nil => exact .nil
  | cons line lines ih =>
    rw [List.forall_mem_cons] at h
    rw [List.map_cons]
    cases hline : json.fromStr line with
    | none =>
      rw [handleConnection_of_none _ _ _ _ hline, List.filter_cons_of_neg (by simp [hline])]
      exact ih h.2
    | some req =>
      obtain ⟨buf, hbuf, hnewline⟩ := h.1 req hline
      rw [handleConnection_of_request _ _ _ _ hline hbuf, List.filter_cons_of_pos (by simp [hline])]
      exact .cons ⟨req, buf, hline, hbuf, hnewline, rfl⟩ (ih h.2)

theorem exists_of_mem_right {α β : Type} {R : α → β → Prop} {as : List α} {bs : List β}
    (h : List.Forall₂ R as bs) {b : β} (hb : b ∈ bs) : ∃ a ∈ as, R a b := by
  induction h with
  | nil => cases hb
  | @cons a _ _ _ hab _ ih =>
    rcases List.mem_cons.mp hb with rfl | hb
    · exact ⟨a, List.mem_cons_self, hab⟩
    · obtain ⟨a, ha, hab⟩ := ih hb
      exact ⟨a, List.mem_cons_of_mem _ ha, hab⟩

/-- The requests among the lines of a session are answered in their order, by
a line each, and no answer depends on what else is sent. -/
theorem handleConnection_in_step (json : Json) (engine : PolicyEngine cel) (relays : Relays)
    (caller : Caller) (lines : List Str)
    (hjson : ∀ line ∈ lines, Writes json engine relays caller line) :
    (handleConnection json engine relays caller (lines.map .ok)).2 = .ok () ∧
    rawLines (handleConnection json engine relays caller (lines.map .ok)).1.flatten =
      (handleConnection json engine relays caller (lines.map .ok)).1 ∧
    List.Forall₂ (Answers json engine relays caller)
      (lines.filter (fun line => (json.fromStr line).isSome))
      (handleConnection json engine relays caller (lines.map .ok)).1 ∧
    ∀ before line after, lines = before ++ line :: after → (json.fromStr line).isSome = true →
      ∃ reply, Answers json engine relays caller line reply ∧
        (handleConnection json engine relays caller (lines.map .ok)).1 =
          (handleConnection json engine relays caller (before.map .ok)).1 ++
            reply :: (handleConnection json engine relays caller (after.map .ok)).1 := by
  have hanswers := forall₂_answers hjson
  refine ⟨?_, ?_, hanswers, ?_⟩
  · have happend := handleConnection_append hjson []
    rw [List.append_nil] at happend
    rw [happend]
    rfl
  · refine rawLines_flatten (fun reply hreply => ?_)
    obtain ⟨_, -, _, buf, -, -, hnewline, rfl⟩ := exists_of_mem_right hanswers hreply
    exact ⟨buf, rfl, hnewline⟩
  · rintro before line after rfl hsome
    obtain ⟨req, hline⟩ := Option.isSome_iff_exists.mp hsome
    obtain ⟨buf, hbuf, hnewline⟩ := hjson line (by simp) req hline
    refine ⟨_, ⟨req, buf, hline, hbuf, hnewline, rfl⟩, ?_⟩
    have hbefore : ∀ line ∈ before, Writes json engine relays caller line :=
      fun line hmem => hjson line (by simp [hmem])
    rw [List.map_append, List.map_cons, handleConnection_append hbefore,
      handleConnection_of_request _ _ _ _ hline hbuf]

/-- What `serde_json` reads and writes, as long as nothing is to be escaped and
the addresses are the daemon's own. -/
def Json.plain : Json where
  fromStr := fun line => do
    let rest ← Text.stripPrefix "\x7b\"hostname\":\"".toList line
    let hostname ← Text.stripPrefix "\x7d\"".toList rest.reverse
    return ⟨hostname.reverse⟩
  toVec := fun resp =>
    match resp with
    | .denied reason => .ok (encode ("\x7b\"verdict\":\"Denied\",\"reason\":\"".toList ++
        reason ++ "\"\x7d".toList))
    | .passThrough => .ok (encode "\x7b\"verdict\":\"PassThrough\"\x7d".toList)
    | .resolved addresses =>
      if addresses = upstreamResolve "example.local".toList then
        .ok (encode
          "\x7b\"verdict\":\"Resolved\",\"addresses\":[\"10.0.0.1\"]\x7d".toList)
      else .error (.new .invalidInput "")

def testLine : Str := "\x7b\"hostname\":\"blocked.test\"\x7d".toList

def testReply : Bytes :=
  encode ("\x7b\"verdict\":\"Denied\",\"reason\":\"matched rule: blocked\"\x7d\n".toList)

theorem handleConnection_in_step_pipelined :
    List.Forall₂ (Answers Json.plain PolicyEngine.testEngine ⟨∅⟩ .unknown) [testLine, testLine]
      (handleConnection Json.plain PolicyEngine.testEngine ⟨∅⟩ .unknown
        ([testLine, "?".toList, testLine].map .ok)).1 := by
  have hrequest : Writes Json.plain PolicyEngine.testEngine ⟨∅⟩ .unknown testLine := by
    intro req hreq
    have hparse : Json.plain.fromStr testLine = some ⟨"blocked.test".toList⟩ := by decide
    obtain rfl := Option.some.inj (hparse.symm.trans hreq)
    exact ⟨_, rfl, by decide⟩
  have hother : Writes Json.plain PolicyEngine.testEngine ⟨∅⟩ .unknown "?".toList := by
    intro req hreq
    cases hreq
  refine (handleConnection_in_step Json.plain PolicyEngine.testEngine ⟨∅⟩ .unknown
    [testLine, "?".toList, testLine] ?_).2.2.1
  rw [List.forall_mem_cons, List.forall_mem_cons, List.forall_mem_singleton]
  exact ⟨hrequest, hother, hrequest⟩

/-- A line that is no request is passed over, and the first response answers
the second line. -/
theorem handleConnection_passes_over :
    Json.plain.fromStr "?".toList = none ∧
    handleConnection Json.plain PolicyEngine.testEngine ⟨∅⟩ .unknown
      ([.ok "?".toList, .ok testLine]) = ([testReply], .ok ()) := by
  decide

end Deezns.Daemon
