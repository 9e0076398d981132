import Deezns.Decisions
import Deezns.NscdWire
import Deezns.PolicyLaws

/-!
# Laws of the nscd front-end

A host lookup with a name carries out the decision on that name; one without a
name is closed upon, which its client takes for a missing daemon. The name is
the whole key up to one closing NUL, while the real nscd reads the key up to
its first NUL.
-/
namespace Deezns.Nscd

open Octets (Bytes NativeEndian)
open Utf8 (Str)

theorem Request.hostname_eq_some_iff (request : Request) (hostname : Str) :
    request.hostname = some hostname ↔
      hostname ≠ [] ∧ stripNul request.key = Utf8.encode hostname := by
  rw [Request.hostname, Option.filter_eq_some_iff, Utf8.decode_eq_some_iff]
  simp [and_comm]

/-- What the real nscd takes of a request: nothing where it is not reached, the front
where the write fails or stalls, else the whole. -/
def Upstream.takes (upstream : Upstream) (raw : Bytes) : Bytes :=
  match upstream with
  | .connectError _ | .connectStall => []
  | .writeError written _ | .writeStall written => raw.take written
  | .answered _ => raw

theorem Upstream.takes_isPrefix (upstream : Upstream) (raw : Bytes) :
    upstream.takes raw <+: raw := by
  cases upstream <;> simp [takes, List.take_prefix]

/-- Forwarding writes what the real nscd takes of the request. -/
theorem sentPieces_forward (upstream : Upstream) (request : Request) :
    (sentPieces (forward upstream request).trace).flatten = upstream.takes request.raw := by
  cases upstream with
  | connectError e => rfl
  | connectStall => rfl
  | writeError n e => simp [forward, Upstream.takes]
  | writeStall n => simp [forward, Upstream.takes]
  | answered stream =>
    simp only [forward, Upstream.takes]
    cases stream.ending <;> simp

/-- And it asks nothing of the policy. -/
@[simp] theorem questions_forward (upstream : Upstream) (request : Request) :
    questions (forward upstream request).trace = [] := by
  cases upstream with
  | connectError e => rfl
  | connectStall => rfl
  | writeError n e => rfl
  | writeStall n => rfl
  | answered stream =>
    simp only [forward]
    cases stream.ending <;> rfl

/-- What a reader of NUL-terminated strings sees of a key. -/
def cString (key : Bytes) : Bytes := key.takeWhile (fun b => b != 0)

theorem zero_not_mem_cString (key : Bytes) : 0 ∉ cString key := by
  intro h
  have hne := List.mem_takeWhile_imp h
  simp at hne

/-- The key up to its closing NUL is the C string, unless there are more NULs. -/
theorem stripNul_eq_cString_iff (key : Bytes) :
    stripNul key = cString key ↔ 0 ∉ stripNul key := by
  constructor
  · intro h
    rw [h]
    exact zero_not_mem_cString key
  · intro h
    have hall : ∀ b ∈ stripNul key, (b != 0) = true := by
      intro b hb
      rw [bne_iff_ne]
      rintro rfl
      exact h hb
    have hstop : ∀ tail : Bytes, (0 :: tail).takeWhile (fun b => b != 0) = [] := by
      intro tail
      simp
    unfold stripNul at h hall ⊢
    split
    · next hlast =>
      rw [if_pos hlast] at hall
      obtain ⟨init, rfl⟩ := List.getLast?_eq_some_iff.mp hlast
      rw [List.dropLast_concat] at hall ⊢
      rw [cString, List.takeWhile_append_of_pos hall, hstop, List.append_nil]
    · next hlast =>
      rw [if_neg hlast] at hall
      exact (List.takeWhile_eq_self_iff.mpr hall).symm

section
variable [NativeEndian]

/-- How the front-end carries out a decision on a name. -/
def carryOut (upstream : Upstream) (request : Request) (hostname : Str) :
    Decision → Effect Reply
  | .deny => return .bytes (notFound request.ty hostNotFound)
  | .answer addrs => return .bytes (found request.ty hostname addrs)
  | .forward => forwardHost upstream request

variable {cel : Cel} (engine : PolicyEngine cel) (upstream : Upstream) (request : Request)
  (caller : Caller)

theorem replyFor_of_no_name (hhost : request.ty.isHostLookup = true)
    (hname : request.hostname = none) : replyFor engine upstream request caller = pure .close := by
  simp [replyFor, hhost, hname]

/-- A host lookup asks the policy about its name and carries out the decision. -/
theorem replyFor_of_name (hhost : request.ty.isHostLookup = true) {hostname : Str}
    (hname : request.hostname = some hostname) :
    replyFor engine upstream request caller = (do
      let verdict ← engine.ask hostname caller
      carryOut upstream request hostname (verdict.decision hostname)) := by
  simp only [replyFor, hhost, hname, Bool.not_true, Bool.false_eq_true, if_false]
  congr 1
  funext verdict
  cases verdict with
  | denied reason => rfl
  | passThrough => rfl
  | allowed =>
    by_cases h : (upstreamResolve hostname).isEmpty = true
    · simp [PolicyVerdict.decision, h, carryOut]
    · simp [PolicyVerdict.decision, h, carryOut]

theorem trace_forwardHost :
    (forwardHost upstream request).trace = (forward upstream request).trace := by
  rw [forwardHost, Traced.trace_bind]
  cases (forward upstream request).value with
  | error e => simp
  | ok bytes =>
    simp only
    split <;> simp

/-- Whatever the real nscd does, a forwarded host lookup gets a valid reply. -/
theorem forwardHost_valid : ∃ bytes, (forwardHost upstream request).value = .bytes bytes ∧
    validHostReply request.ty bytes = true := by
  rw [forwardHost, Traced.value_bind]
  cases (forward upstream request).value with
  | error e => exact ⟨_, rfl, validHostReply_notFound _ _⟩
  | ok bytes =>
    simp only
    split
    · next h => exact ⟨bytes, rfl, h⟩
    · exact ⟨_, rfl, validHostReply_notFound _ _⟩

/-- The daemon's own records make short replies. -/
theorem length_found_upstreamResolve (ty : RequestType) (hostname : Str)
    (h : upstreamResolve hostname ≠ []) :
    (found ty hostname (upstreamResolve hostname)).length < 2 ^ 31 := by
  rw [upstreamResolve_ne_nil_iff] at h
  subst h
  have hle := length_found_le ty "example.local".toList (upstreamResolve "example.local".toList)
  have hsize : hstHeaderLen + (Text.byteLen "example.local".toList + 1 +
      17 * (upstreamResolve "example.local".toList).length) < 2 ^ 31 := by decide
  omega

theorem carryOut_valid (hostname : Str) (verdict : PolicyVerdict) :
    ∃ bytes, (carryOut upstream request hostname (verdict.decision hostname)).value =
      .bytes bytes ∧ validHostReply request.ty bytes = true := by
  cases hdecision : verdict.decision hostname with
  | deny => exact ⟨_, rfl, validHostReply_notFound _ _⟩
  | answer addrs =>
    obtain ⟨_, hne, rfl⟩ := (PolicyVerdict.decision_eq_answer_iff _ _ _).mp hdecision
    exact ⟨_, rfl, validHostReply_found _ _ _ (length_found_upstreamResolve _ _ hne)⟩
  | forward => exact forwardHost_valid upstream request

/-- A host lookup is answered with a valid reply exactly when its key is a name. -/
theorem replyFor_valid_iff (hhost : request.ty.isHostLookup = true) :
    (∃ bytes, (replyFor engine upstream request caller).value = .bytes bytes ∧
      validHostReply request.ty bytes = true) ↔
    ∃ hostname, hostname ≠ [] ∧ stripNul request.key = Utf8.encode hostname := by
  cases hname : request.hostname with
  | none =>
    rw [replyFor_of_no_name engine upstream request caller hhost hname]
    constructor
    · rintro ⟨bytes, h, _⟩
      cases h
    · rintro ⟨hostname, h⟩
      rw [← Request.hostname_eq_some_iff, hname] at h
      cases h
  | some hostname =>
    rw [replyFor_of_name engine upstream request caller hhost hname]
    exact ⟨fun _ => ⟨hostname, (Request.hostname_eq_some_iff _ _).mp hname⟩,
      fun _ => carryOut_valid upstream request hostname _⟩

@[simp] theorem questions_carryOut (hostname : Str) (decision : Decision) :
    questions (carryOut upstream request hostname decision).trace = [] := by
  cases decision with
  | deny => rfl
  | answer addrs => rfl
  | forward => rw [carryOut, trace_forwardHost, questions_forward]

/-- A host lookup is judged once, under its name. -/
theorem questions_replyFor (hhost : request.ty.isHostLookup = true) :
    questions (replyFor engine upstream request caller).trace =
      match request.hostname with
      | none => []
      | some hostname => [(hostname, caller)] := by
  cases hname : request.hostname with
  | none => simp [replyFor_of_no_name engine upstream request caller hhost hname]
  | some hostname => simp [replyFor_of_name engine upstream request caller hhost hname]

/-- A host lookup that is forwarded was judged under one name, its key. -/
theorem exists_asked_of_sent (hhost : request.ty.isHostLookup = true)
    (hsent : sentPieces (replyFor engine upstream request caller).trace ≠ []) :
    ∃ hostname, request.hostname = some hostname ∧
      ∀ name c, .asked name c ∈ (replyFor engine upstream request caller).trace ↔
        name = hostname ∧ c = caller := by
  have hquestions := questions_replyFor engine upstream request caller hhost
  cases hname : request.hostname with
  | none =>
    rw [replyFor_of_no_name engine upstream request caller hhost hname] at hsent
    exact absurd rfl hsent
  | some hostname =>
    refine ⟨hostname, rfl, ?_⟩
    intro name c
    rw [hname] at hquestions
    rw [← mem_questions_iff, hquestions, List.mem_singleton, Prod.mk.injEq]

/-- The judged name is the C string that is forwarded exactly when the key has
no NUL but the one it may end in; such keys are judged alike when they are
resolved alike. -/
theorem judged_name_iff {raw : Bytes} (hparse : Request.parse raw = .ok request)
    (hhost : request.ty.isHostLookup = true)
    (hsent : sentPieces (replyFor engine upstream request caller).trace ≠ []) :
    ((∀ hostname c, .asked hostname c ∈ (replyFor engine upstream request caller).trace →
        Utf8.encode hostname = cString (request.raw.drop headerLen)) ↔
      0 ∉ stripNul request.key) ∧
    (0 ∉ stripNul request.key → ∀ (raw' : Bytes) (request' : Request),
      Request.parse raw' = .ok request' → 0 ∉ stripNul request'.key →
      cString (request'.raw.drop headerLen) = cString (request.raw.drop headerLen) →
      request'.hostname = request.hostname) := by
  have hkey : ∀ (raw' : Bytes) (request' : Request), Request.parse raw' = .ok request' →
      request'.raw.drop headerLen = request'.key := by
    intro raw' request' hparse'
    obtain ⟨hraw, hencode, _⟩ := (Request.parse_eq_ok_iff _ _).mp hparse'
    rw [hraw, hencode, Request.drop_encode]
  obtain ⟨hostname, hname, hasked⟩ :=
    exists_asked_of_sent engine upstream request caller hhost hsent
  have hencode := ((Request.hostname_eq_some_iff _ _).mp hname).2
  constructor
  · rw [hkey raw request hparse, ← stripNul_eq_cString_iff, hencode]
    constructor
    · intro h
      exact h hostname caller ((hasked _ _).mpr ⟨rfl, rfl⟩)
    · rintro h name c hmem
      rw [((hasked _ _).mp hmem).1]
      exact h
  · intro hnul raw' request' hparse' hnul' hsame
    rw [hkey raw request hparse, hkey raw' request' hparse',
      ← (stripNul_eq_cString_iff _).mpr hnul, ← (stripNul_eq_cString_iff _).mpr hnul'] at hsame
    rw [Request.hostname, Request.hostname, hsame]

end

/-- The byte order of the test requests. -/
@[reducible] def littleEndian : NativeEndian := ⟨.little⟩

/-- A `GETAI` request with the given key. -/
def getAi (key : Bytes) : Request := ⟨.getAi, key, @Request.encode littleEndian .getAi key⟩

theorem replyFor_valid_blocked :
    ∃ bytes, (@replyFor littleEndian _ PolicyEngine.testEngine .connectStall
        (getAi (Utf8.encode "Blocked.test".toList ++ [0])) .unknown).value = .bytes bytes ∧
      @validHostReply littleEndian .getAi bytes = true :=
  (@replyFor_valid_iff littleEndian _ PolicyEngine.testEngine .connectStall
    (getAi (Utf8.encode "Blocked.test".toList ++ [0])) .unknown rfl).mpr
    ⟨"Blocked.test".toList, by decide, by decide⟩

/-- A connection that asks for no name, or for one that is not UTF-8, is closed. -/
theorem replyFor_closes_without_name :
    @readRequest littleEndian ⟨(getAi [0]).raw, .stall⟩ = some (.ok (getAi [0], ⟨[], .stall⟩)) ∧
    (@replyFor littleEndian _ PolicyEngine.testEngine .connectStall (getAi [0]) .unknown).value =
      .close ∧
    @readRequest littleEndian ⟨(getAi [0xFF, 0]).raw, .stall⟩ =
      some (.ok (getAi [0xFF, 0], ⟨[], .stall⟩)) ∧
    (@replyFor littleEndian _ PolicyEngine.testEngine .connectStall (getAi [0xFF, 0])
      .unknown).value = .close := by
  have hparse : ∀ key : Bytes, key.length ≤ maxKeyLen →
      @readRequest littleEndian ⟨(getAi key).raw, .stall⟩ =
        some (.ok (getAi key, ⟨[], .stall⟩)) := by
    intro key hkey
    rw [@readRequest_eq_ok_iff littleEndian]
    refine ⟨by simp, ?_⟩
    rw [@Request.parse_eq_ok_iff littleEndian]
    exact ⟨rfl, rfl, hkey⟩
  exact ⟨hparse _ (by decide), by decide, hparse _ (by decide), by decide⟩

theorem judged_name_plain :
    sentPieces (@replyFor littleEndian _ PolicyEngine.testEngine (.answered ⟨[], .eof⟩)
        (getAi (Utf8.encode "other.test".toList ++ [0])) .unknown).trace ≠ [] ∧
    ∀ hostname c, .asked hostname c ∈ (@replyFor littleEndian _ PolicyEngine.testEngine
        (.answered ⟨[], .eof⟩) (getAi (Utf8.encode "other.test".toList ++ [0])) .unknown).trace →
      Utf8.encode hostname =
        cString ((getAi (Utf8.encode "other.test".toList ++ [0])).raw.drop headerLen) := by
  have hparse := (@Request.parse_eq_ok_iff littleEndian _
    (getAi (Utf8.encode "other.test".toList ++ [0]))).mpr ⟨rfl, rfl, by decide⟩
  have hsent : sentPieces (@replyFor littleEndian _ PolicyEngine.testEngine
      (.answered ⟨[], .eof⟩) (getAi (Utf8.encode "other.test".toList ++ [0])) .unknown).trace ≠
        [] := by decide
  exact ⟨hsent, (@judged_name_iff littleEndian _ PolicyEngine.testEngine (.answered ⟨[], .eof⟩) _
    .unknown _ hparse rfl hsent).1.mpr (by decide)⟩

/-- Behind a NUL a denied name passes, judged with what follows it. -/
theorem judged_name_behind_nul :
    cString ((getAi (Utf8.encode "blocked.test\x00x\x00".toList)).raw.drop headerLen) =
      Utf8.encode "blocked.test".toList ∧
    PolicyEngine.testEngine.evaluateFor "blocked.test".toList .unknown =
      .denied "matched rule: blocked".toList ∧
    (@replyFor littleEndian _ PolicyEngine.testEngine (.answered ⟨[], .eof⟩)
        (getAi (Utf8.encode "blocked.test\x00x\x00".toList)) .unknown).trace =
      [.asked "blocked.test\x00x".toList .unknown,
        .sent (getAi (Utf8.encode "blocked.test\x00x\x00".toList)).raw] := by
  refine ⟨by decide, by decide, by decide⟩

end Deezns.Nscd
