import Deezns.NscdFrontend

/-!
# Requests on the wire

Encoding and parsing undo each other. A request that is read off a connection
is a front of it that parses, there is only one, and nothing behind it is read:
the header says how long a request is.
-/
namespace Deezns.Nscd

open Octets (Bytes NativeEndian readNe)

theorem readExact_eq_error_cases {stream : Stream} {n : Nat} {e : IoError}
    (h : stream.readExact n = some (.error e)) : stream.ending = .error e ∨ e = earlyEof := by
  unfold Stream.readExact at h
  split at h
  · cases h
  · split at h
    · cases h
      exact .inr rfl
    · next hending =>
      cases h
      exact .inl hending
    · cases h

/-- What there is enough of is read, whatever follows it. -/
theorem readExact_append {front : Bytes} {n : Nat} (h : n ≤ front.length) (rest : Bytes)
    (ending : Ending) :
    Stream.readExact ⟨front ++ rest, ending⟩ n =
      some (.ok (front.take n, ⟨front.drop n ++ rest, ending⟩)) := by
  rw [Stream.readExact_eq_ok_iff]
  refine ⟨List.length_take_of_le h, ?_⟩
  simp only
  rw [← List.append_assoc, List.take_append_drop]

/-- What `parse` says of bytes that are not as long as they claim to be. -/
def Request.IsLengthError (e : String) : Prop :=
  (∃ n : Nat, e = s!"request too short: {n} bytes") ∨
    ∃ keyLen n : Nat, e = s!"key length {keyLen} does not match {n} bytes of key"

theorem Request.IsLengthError.head {e : String} (h : Request.IsLengthError e) :
    e.toList.head? = some 'r' ∨ e.toList.head? = some 'k' := by
  obtain ⟨n, rfl⟩ | ⟨keyLen, n, rfl⟩ := h
  · exact .inl (by simp [toString])
  · exact .inr (by simp [toString])

section
variable [NativeEndian]

/-- Encoding and parsing are inverse, and nothing else parses. -/
theorem Request.parse_encode_inverse :
    (∀ (ty : RequestType) (key : Bytes), key.length ≤ maxKeyLen →
      Request.parse (Request.encode ty key) = .ok ⟨ty, key, Request.encode ty key⟩) ∧
    (∀ (bytes : Bytes) (request : Request), Request.parse bytes = .ok request →
      request.raw = bytes ∧ request.key.length ≤ maxKeyLen ∧
        Request.encode request.ty request.key = bytes) ∧
    (∀ bytes : Bytes,
      (∀ (ty : RequestType) (key : Bytes), key.length ≤ maxKeyLen →
        bytes ≠ Request.encode ty key) → ∃ e, Request.parse bytes = .error e) := by
  refine ⟨?_, ?_, ?_⟩
  · intro ty key hkey
    exact (Request.parse_eq_ok_iff _ _).mpr ⟨rfl, rfl, hkey⟩
  · intro bytes request hparse
    obtain ⟨hraw, hencode, hkey⟩ := (Request.parse_eq_ok_iff _ _).mp hparse
    exact ⟨hraw, hkey, hencode.symm⟩
  · intro bytes hother
    cases hparse : Request.parse bytes with
    | error e => exact ⟨e, rfl⟩
    | ok request =>
      obtain ⟨_, hencode, hkey⟩ := (Request.parse_eq_ok_iff _ _).mp hparse
      exact absurd hencode (hother _ _ hkey)

/-- A request in front of a stream is read off it, and is what it is read as. -/
theorem readRequest_of_parse {p : Bytes} {request : Request}
    (hparse : Request.parse p = .ok request) (rest : Stream) :
    readRequest ⟨p ++ rest.bytes, rest.ending⟩ = some (.ok (request, rest)) := by
  obtain ⟨rfl, _, _⟩ := (Request.parse_eq_ok_iff _ _).mp hparse
  exact (readRequest_eq_ok_iff _ _ _).mpr ⟨rfl, hparse⟩

/-- Of the fronts of a byte string only one is a request. -/
theorem Request.parse_prefix_unique {bytes p p' : Bytes} {request request' : Request}
    (hp : p <+: bytes) (hp' : p' <+: bytes) (hparse : Request.parse p = .ok request)
    (hparse' : Request.parse p' = .ok request') : p = p' := by
  obtain ⟨rest, rfl⟩ := hp
  obtain ⟨rest', heq⟩ := hp'
  have hread := readRequest_of_parse hparse ⟨rest, .eof⟩
  have hread' := readRequest_of_parse hparse' ⟨rest', .eof⟩
  simp only [heq, hread, Option.some.injEq, Except.ok.injEq, Prod.mk.injEq] at hread'
  obtain ⟨rfl, _, _⟩ := (Request.parse_eq_ok_iff _ _).mp hparse
  obtain ⟨rfl, _, _⟩ := (Request.parse_eq_ok_iff _ _).mp hparse'
  rw [hread'.1]

/-- Of bytes as long as their header says, only the version and the type can be
wrong. -/
theorem Request.parse_error_not_length {bytes : Bytes} {e : String}
    (hlen : bytes.length = headerLen + (readNe bytes 8).toInt.toNat)
    (hnonneg : ¬ (readNe bytes 8).toInt < 0)
    (hmax : ¬ maxKeyLen < (readNe bytes 8).toInt.toNat)
    (h : Request.parse bytes = .error e) : ¬ Request.IsLengthError e := by
  have hshort : ¬ bytes.length < headerLen := by omega
  have hkey : ¬ bytes.length ≠ headerLen + (readNe bytes 8).toInt.toNat := not_not.mpr hlen
  simp only [Request.parse, if_neg hshort, if_neg hnonneg, if_neg hmax, if_neg hkey] at h
  intro herror
  have hhead := herror.head
  split at h
  · cases h
    simp [toString] at hhead
  · split at h
    · cases h
      simp [toString] at hhead
    · cases h

/-- A request that cannot be read was not delivered, or is not well formed; its
length is always the one it claims to have. -/
theorem readRequest_error_cases {stream : Stream} {e : IoError}
    (h : readRequest stream = some (.error e)) :
    stream.ending = .error e ∨ e = earlyEof ∨
      ∃ message, e = .new .invalidData message ∧ ¬ Request.IsLengthError message := by
  unfold readRequest at h
  split at h
  · cases h
  · next hheader =>
    cases h
    exact (readExact_eq_error_cases hheader).imp_right .inl
  · next header behind hheader =>
    obtain ⟨hlen, rfl⟩ := (Stream.readExact_eq_ok_iff _ _ _ _).mp hheader
    dsimp only at h
    split at h
    · cases h
      refine .inr (.inr ⟨_, rfl, fun herror => ?_⟩)
      have hhead := herror.head
      simp at hhead
    · next hbounds =>
      rw [not_or] at hbounds
      split at h
      · cases h
      · next hkey =>
        cases h
        exact (readExact_eq_error_cases hkey).imp_right .inl
      · next key behind' hkey =>
        obtain ⟨hkeyLen, rfl⟩ := (Stream.readExact_eq_ok_iff _ _ _ _).mp hkey
        have hword : readNe (header ++ key) 8 = readNe header 8 :=
          Octets.readNe_append (by simp only [headerLen] at hlen; omega) key
        have htotal : (header ++ key).length =
            headerLen + (readNe (header ++ key) 8).toInt.toNat := by
          rw [List.length_append, hlen, hkeyLen, hword]
        split at h
        · next message hparse =>
          cases h
          rw [← hword] at hbounds
          exact .inr (.inr ⟨_, rfl,
            Request.parse_error_not_length htotal hbounds.1 hbounds.2 hparse⟩)
        · cases h

/-- Whatever becomes of a request is decided by as many bytes as the longest
one has: the stream may stall behind them, or go on. -/
theorem readRequest_append {front : Bytes} (h : front.length = headerLen + maxKeyLen) :
    ∃ outcome : Except IoError (Request × Stream), ∀ (rest : Bytes) (ending : Ending),
      readRequest ⟨front ++ rest, ending⟩ =
        some (outcome.map (fun x => (x.1, ⟨x.2.bytes ++ rest, ending⟩))) := by
  have hheader := @readExact_append front headerLen (by omega)
  have hbehind : (front.drop headerLen).length = maxKeyLen := by
    rw [List.length_drop, h, Nat.add_sub_cancel_left]
  by_cases hbounds : (readNe (front.take headerLen) 8).toInt < 0 ∨
      maxKeyLen < (readNe (front.take headerLen) 8).toInt.toNat
  · refine ⟨.error (.new .invalidData "bad key length"), ?_⟩
    intro rest ending
    simp only [readRequest, hheader, if_pos hbounds]
    rfl
  · have hkeyLen : (readNe (front.take headerLen) 8).toInt.toNat ≤
        (front.drop headerLen).length := by
      rw [not_or, Nat.not_lt] at hbounds
      rw [hbehind]
      exact hbounds.2
    have hkey := readExact_append hkeyLen
    cases hparse : Request.parse (front.take headerLen ++
        (front.drop headerLen).take (readNe (front.take headerLen) 8).toInt.toNat) with
    | error e =>
      refine ⟨.error (.new .invalidData e), ?_⟩
      intro rest ending
      simp only [readRequest, hheader, if_neg hbounds, hkey, hparse]
      rfl
    | ok request =>
      refine ⟨.ok (request, ⟨(front.drop headerLen).drop
        (readNe (front.take headerLen) 8).toInt.toNat, .stall⟩), ?_⟩
      intro rest ending
      simp only [readRequest, hheader, if_neg hbounds, hkey, hparse]
      rfl

/-- Reading off a connection and parsing a message whole agree: what is read is
the one front that parses, and no more than the longest request is read. -/
theorem readRequest_refines_parse :
    (∀ (bytes : Bytes) (request : Request),
      (∃ rest, readRequest ⟨bytes, .eof⟩ = some (.ok (request, rest))) ↔
        ∃ p, p <+: bytes ∧ Request.parse p = .ok request) ∧
    (∀ (bytes p p' : Bytes) (request request' : Request), p <+: bytes → p' <+: bytes →
      Request.parse p = .ok request → Request.parse p' = .ok request' → p = p') ∧
    (∀ (stream rest : Stream) (request : Request),
      readRequest stream = some (.ok (request, rest)) →
        Request.parse request.raw = .ok request ∧ stream.bytes = request.raw ++ rest.bytes ∧
          rest.ending = stream.ending) ∧
    (∀ (stream : Stream) (e : IoError), readRequest stream = some (.error e) →
      stream.ending = .error e ∨
        ∀ message, e = .new .invalidData message → ¬ Request.IsLengthError message) ∧
    ∀ front : Bytes, front.length = headerLen + maxKeyLen →
      ∃ outcome : Except IoError (Request × Stream), ∀ (rest : Bytes) (ending : Ending),
        readRequest ⟨front ++ rest, ending⟩ =
          some (outcome.map (fun x => (x.1, ⟨x.2.bytes ++ rest, ending⟩))) := by
  refine ⟨?_, ?_, ?_, ?_, ?_⟩
  · intro bytes request
    constructor
    · rintro ⟨rest, hread⟩
      obtain ⟨hstream, hparse⟩ := (readRequest_eq_ok_iff _ _ _).mp hread
      have hbytes : bytes = request.raw ++ rest.bytes := congrArg Stream.bytes hstream
      exact ⟨request.raw, ⟨rest.bytes, hbytes.symm⟩, hparse⟩
    · rintro ⟨p, ⟨rest, rfl⟩, hparse⟩
      exact ⟨⟨rest, .eof⟩, readRequest_of_parse hparse ⟨rest, .eof⟩⟩
  · intro bytes p p' request request' hp hp' hparse hparse'
    exact Request.parse_prefix_unique hp hp' hparse hparse'
  · intro stream rest request hread
    obtain ⟨rfl, hparse⟩ := (readRequest_eq_ok_iff _ _ _).mp hread
    exact ⟨hparse, rfl, rfl⟩
  · intro stream e hread
    apply (readRequest_error_cases hread).imp_right
    rintro (rfl | ⟨message, rfl, hlength⟩) message' hmessage
    · cases hmessage
    · cases hmessage
      exact hlength
  · intro front hfront
    exact readRequest_append hfront

end

theorem parse_encode_inverse_getAi :
    @Request.parse littleEndian (getAi [97, 0]).raw = .ok (getAi [97, 0]) ∧
      (getAi [97, 0]).key.length ≤ maxKeyLen ∧
      ∃ e, @Request.parse littleEndian [2, 0] = .error e := by
  obtain ⟨hencode, hparse, hother⟩ := @Request.parse_encode_inverse littleEndian
  have hok := hencode .getAi [97, 0] (by decide)
  refine ⟨hok, (hparse _ _ hok).2.1, hother _ ?_⟩
  intro ty key _ heq
  have hlen := congrArg List.length heq
  simp [Request.encode] at hlen
  omega

/-- A request with more bytes behind it, one that is cut short, and bytes that
need not end. -/
theorem readRequest_refines_parse_getAi :
    (∃ rest, @readRequest littleEndian ⟨(getAi [97, 0]).raw ++ [2, 0], .eof⟩ =
      some (.ok (getAi [97, 0], rest)) ∧ rest.bytes = [2, 0] ∧ rest.ending = .eof) ∧
    (∀ p, p <+: (getAi [97, 0]).raw ++ [2, 0] →
      @Request.parse littleEndian p = .ok (getAi [97, 0]) → p = (getAi [97, 0]).raw) ∧
    (∀ message, earlyEof = .new .invalidData message → ¬ Request.IsLengthError message) ∧
    ∃ outcome : Except IoError (Request × Stream), ∀ (rest : Bytes) (ending : Ending),
      @readRequest littleEndian ⟨List.replicate (headerLen + maxKeyLen) 2 ++ rest, ending⟩ =
        some (outcome.map (fun x => (x.1, ⟨x.2.bytes ++ rest, ending⟩))) := by
  obtain ⟨hiff, hunique, hrest, herror, hbound⟩ := @readRequest_refines_parse littleEndian
  have hparse : @Request.parse littleEndian (getAi [97, 0]).raw = .ok (getAi [97, 0]) := by
    decide
  have hprefix : (getAi [97, 0]).raw <+: (getAi [97, 0]).raw ++ [2, 0] := List.prefix_append _ _
  refine ⟨?_, ?_, ?_, hbound _ List.length_replicate⟩
  · obtain ⟨rest, hread⟩ := (hiff _ _).mpr ⟨_, hprefix, hparse⟩
    obtain ⟨_, hbytes, hending⟩ := hrest _ _ _ hread
    exact ⟨rest, hread, (List.append_cancel_left hbytes).symm, hending⟩
  · intro p hp hok
    exact hunique _ _ _ _ _ hp hprefix hok hparse
  · have hread : @readRequest littleEndian ⟨[2, 0], .eof⟩ = some (.error earlyEof) := by decide
    exact (herror _ _ hread).resolve_left (by decide)

end Deezns.Nscd
