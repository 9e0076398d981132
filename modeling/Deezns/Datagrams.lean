import Deezns.Questions

/-!
# Datagrams from upstream

Of the datagrams that arrive on the socket to the upstream server the first one
that starts with the id of the query is relayed. It should be the answer to it:
a response, with the same id and the same question.
-/
namespace Deezns.Dns

open Octets (Bytes)

/-- The first element that meets a condition meets a stronger one only as the
first that does. -/
theorem find?_eq_some_of_imp {α : Type} {p q : α → Bool} (h : ∀ x, q x = true → p x = true)
    {l : List α} {x : α} (hp : l.find? p = some x) (hq : q x = true) : l.find? q = some x := by
  induction l with
  | nil => cases hp
  | cons y l ih =>
    by_cases hy : p y = true
    · rw [List.find?_cons_of_pos hy] at hp
      cases hp
      exact List.find?_cons_of_pos hq
    · have hny : ¬ q y = true := fun hqy => hy (h y hqy)
      rw [List.find?_cons_of_neg hy] at hp
      rw [List.find?_cons_of_neg hny]
      exact ih hp

/-- What `recv` gives: it cuts off what no UDP datagram is long enough to have. -/
def received (arriving : List Bytes) : List Bytes := arriving.map (List.take maxMessage)

/-- The datagram is a response with the id and the question of a query. -/
def isAnswerTo (query : Query) (datagram : Bytes) : Bool :=
  (be16 datagram 2).any (fun flags => flags &&& flagQr != 0) &&
    be16 datagram 0 == some query.id && be16 datagram 4 == some 1 &&
    (datagram.drop headerLen).take query.questionBytes.length == query.questionBytes

/-- The first answer of those that arrive, or how the socket ends. -/
def firstAnswer (query : Query) (arriving : List Bytes) (last : Option IoError) : Async Bytes :=
  match (received arriving).find? (isAnswerTo query) with
  | some reply => some (.ok reply)
  | none => last.map .error

/-- An answer starts with the id of the query. -/
theorem isReplyTo_of_isAnswerTo {raw : Bytes} {query : Query} (h : Query.parse raw = .ok query)
    {datagram : Bytes} (hanswer : isAnswerTo query datagram = true) :
    isReplyTo raw datagram = true := by
  obtain ⟨rfl, labels, hreads⟩ := (Query.parse_eq_ok_iff raw query).mp h
  simp only [isAnswerTo, Bool.and_eq_true, beq_iff_eq] at hanswer
  have hid : datagram.take 2 = toBe16 query.id := by
    simpa using (be16_eq_some_iff datagram 0 query.id).mp hanswer.1.1.2
  have hlen := congrArg List.length hid
  rw [List.length_take, length_toBe16] at hlen
  simp only [isReplyTo, hreads.id, hid, beq_self_eq_true, Bool.and_true, decide_eq_true_eq]
  omega

/-- The first answer is relayed exactly if nothing else with the id of the
query comes before it. -/
theorem forwardUdp_answers_iff {raw : Bytes} {query : Query} (h : Query.parse raw = .ok query)
    (arriving : List Bytes) (last : Option IoError) :
    (forwardUdp (.sent arriving last) raw).value = firstAnswer query arriving last ↔
      ∀ reply, (received arriving).find? (isReplyTo raw) = some reply →
        isAnswerTo query reply = true := by
  have himp : ∀ d, isAnswerTo query d = true → isReplyTo raw d = true :=
    fun _ => isReplyTo_of_isAnswerTo h
  have hvalue : (forwardUdp (.sent arriving last) raw).value =
      match (received arriving).find? (isReplyTo raw) with
      | some reply => some (.ok reply)
      | none => last.map .error := by
    simp only [forwardUdp, received, Traced.value_bind]
    cases (arriving.map (List.take maxMessage)).find? (isReplyTo raw) <;> rfl
  rw [hvalue, firstAnswer]
  cases hfirst : (received arriving).find? (isReplyTo raw) with
  | none =>
    have hnone : (received arriving).find? (isAnswerTo query) = none := by
      rw [List.find?_eq_none] at hfirst ⊢
      intro d hd hanswer
      exact hfirst d hd (himp d hanswer)
    simp [hnone]
  | some reply =>
    constructor
    · intro heq reply' hreply'
      cases hreply'
      cases hanswer : (received arriving).find? (isAnswerTo query) with
      | none =>
        rw [hanswer] at heq
        cases last <;> cases heq
      | some answer =>
        rw [hanswer] at heq
        cases heq
        exact List.find?_some hanswer
    · intro hanswer
      rw [find?_eq_some_of_imp himp hfirst (hanswer reply rfl)]

/-- Somebody else's reply does no harm. -/
theorem forwardUdp_answers_behind_other_id :
    (forwardUdp (.sent [[9, 9], testParsed.answer [loopback]] none) Frontend.testQuery).value =
      firstAnswer testParsed [[9, 9], testParsed.answer [loopback]] none :=
  (forwardUdp_answers_iff parse_testQuery _ none).mpr (by decide)

/-- An id alone, the query itself, and the answer for another name are all
relayed in place of the answer. -/
theorem forwardUdp_relays_forged :
    (forwardUdp (.sent [[0, 7], testParsed.answer [loopback]] none) Frontend.testQuery).value =
      some (.ok [0, 7]) ∧
    (forwardUdp (.sent [Frontend.testQuery, testParsed.answer [loopback]] none)
      Frontend.testQuery).value = some (.ok Frontend.testQuery) ∧
    (forwardUdp (.sent [[0, 7, 129, 128, 0, 1, 0, 0, 0, 0, 0, 0, 1, 98, 0, 0, 1, 0, 1],
      testParsed.answer [loopback]] none) Frontend.testQuery).value =
        some (.ok [0, 7, 129, 128, 0, 1, 0, 0, 0, 0, 0, 0, 1, 98, 0, 0, 1, 0, 1]) ∧
    firstAnswer testParsed [[0, 7], testParsed.answer [loopback]] none =
      some (.ok (testParsed.answer [loopback])) := by
  decide

end Deezns.Dns
