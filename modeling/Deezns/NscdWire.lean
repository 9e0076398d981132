import Deezns.Nscd

/-!
# The nscd wire format

Parsing accepts exactly what `encode` writes, and reading off a connection
stops behind exactly one such request. Replies the daemon builds itself pass
the check that is made of the real nscd's.
-/
namespace Deezns.Nscd

open Octets (Bytes NativeEndian readNe writeNe)
open Utf8 (Str)
open Text

theorem RequestType.fromI32_eq_some_iff (v : Int32) (ty : RequestType) :
    fromI32 v = some ty ↔ v = ty.asI32 := by
  constructor
  · intro h
    simp only [fromI32] at h
    split at h
    · cases h
    · next hneg =>
      have hidx : ∀ i < all.length, ∀ ty, all[i]? = some ty → all.idxOf ty = i := by decide
      have hlt : v.toInt.toNat < all.length := (List.getElem?_eq_some_iff.mp h).1
      rw [asI32, hidx _ hlt ty h, ← Int32.ofInt_eq_ofNat, Int.toNat_of_nonneg (by omega),
        Int32.ofInt_toInt]
  · rintro rfl
    cases ty <;> decide

/-- The length of an encoded key is read back, if it fits. -/
theorem toInt_ofNat_key {key : Bytes} (h : key.length ≤ maxKeyLen) :
    (Int32.ofNat key.length).toInt = key.length :=
  Int32.toInt_ofNat_of_lt (by simp only [maxKeyLen] at h; omega)

theorem toInt_eq_zero_iff (v : Int32) : v.toInt = 0 ↔ v = 0 := @Int32.toInt_inj v 0

theorem toInt_eq_one_iff (v : Int32) : v.toInt = 1 ↔ v = 1 := @Int32.toInt_inj v 1

theorem ofNat_toNat_toInt {w : Int32} (h : 0 ≤ w.toInt) : Int32.ofNat w.toInt.toNat = w := by
  rw [← Int32.ofInt_eq_ofNat, Int.toNat_of_nonneg h, Int32.ofInt_toInt]

theorem length_addressBytes (a : IpAddr) :
    (addressBytes a).length = if addressFamily a = afInet6 then 16 else 4 := by
  cases a with
  | v4 a => simp [addressBytes, addressFamily, a.length_octets, afInet, afInet6]
  | v6 a => simp [addressBytes, addressFamily, a.length_octets]

theorem length_flatMap_addressBytes (family : Int32) (addrs : List IpAddr)
    (h : ∀ a ∈ addrs, addressFamily a = family) :
    (addrs.flatMap addressBytes).length =
      addrs.length * if family = afInet6 then 16 else 4 := by
  induction addrs with
  | nil => simp
  | cons a addrs ih =>
    rw [List.flatMap_cons, List.length_append, ih (fun b hb => h b (by simp [hb])),
      length_addressBytes, h a (by simp), List.length_cons, Nat.succ_mul, Nat.add_comm]

theorem length_flatMap_addressBytes_le (addrs : List IpAddr) :
    (addrs.flatMap addressBytes).length ≤ 16 * addrs.length := by
  induction addrs with
  | nil => simp
  | cons a addrs ih =>
    have hle : (addressBytes a).length ≤ 16 := by
      rw [length_addressBytes]
      split <;> omega
    rw [List.flatMap_cons, List.length_append, List.length_cons]
    omega

section
variable [NativeEndian]

theorem readNe_encode (ty : RequestType) (key : Bytes) :
    readNe (Request.encode ty key) 0 = version ∧ readNe (Request.encode ty key) 4 = ty.asI32 ∧
      readNe (Request.encode ty key) 8 = Int32.ofNat key.length :=
  ⟨Octets.readNe_writeNe _ key 0 (by simp), Octets.readNe_writeNe _ key 1 (by simp),
    Octets.readNe_writeNe _ key 2 (by simp)⟩

theorem Request.drop_encode (ty : RequestType) (key : Bytes) :
    (Request.encode ty key).drop headerLen = key :=
  List.drop_left' (by simp [headerLen])

/-- Parsing accepts exactly the encodings, and keeps them whole. -/
theorem Request.parse_eq_ok_iff (bytes : Bytes) (request : Request) :
    Request.parse bytes = .ok request ↔ request.raw = bytes ∧
      bytes = Request.encode request.ty request.key ∧ request.key.length ≤ maxKeyLen := by
  constructor
  · intro h
    unfold Request.parse at h
    split at h
    · cases h
    split at h
    · cases h
    next hlen hversion =>
    split at h
    · cases h
    next ty hty =>
    split at h
    · cases h
    next hneg =>
    dsimp only at h
    split at h
    · cases h
    split at h
    · cases h
    next hmax hkey =>
    cases h
    rw [not_not] at hversion hkey
    have hkeyLen : (bytes.drop headerLen).length = (readNe bytes 8).toInt.toNat := by
      rw [List.length_drop, hkey, Nat.add_sub_cancel_left]
    refine ⟨rfl, ?_, by rw [hkeyLen]; exact Nat.not_lt.mp hmax⟩
    rw [Request.encode, hkeyLen, ofNat_toNat_toInt (Int.not_lt.mp hneg),
      ← (RequestType.fromI32_eq_some_iff _ _).mp hty, ← hversion]
    exact (Octets.writeNe_readNe_append bytes 3 (by simpa [headerLen] using hlen)).symm
  · rintro ⟨rfl, hraw, hkey⟩
    obtain ⟨hversion, hty, hlen⟩ := readNe_encode request.ty request.key
    have hkeyInt := toInt_ofNat_key hkey
    have hfrom := (RequestType.fromI32_eq_some_iff _ _).mpr (rfl : request.ty.asI32 = _)
    have htotal : request.raw.length = headerLen + request.key.length := by
      rw [hraw]
      simp [Request.encode, headerLen]
    have hdrop := Request.drop_encode request.ty request.key
    rw [← hraw] at hversion hty hlen hdrop
    simp [Request.parse, hversion, hty, hlen, hkeyInt, hfrom, htotal, hdrop, Nat.not_lt.mpr hkey]

/-- A request read off a connection is the bytes in front, parsed. -/
theorem readRequest_eq_ok_iff (stream rest : Stream) (request : Request) :
    readRequest stream = some (.ok (request, rest)) ↔
      stream = ⟨request.raw ++ rest.bytes, rest.ending⟩ ∧
        Request.parse request.raw = .ok request := by
  constructor
  · intro h
    unfold readRequest at h
    split at h
    · cases h
    · cases h
    next header behind hheader =>
    dsimp only at h
    split at h
    · cases h
    split at h
    · cases h
    · cases h
    next key behind' hkey =>
    split at h
    · cases h
    next request' hparse =>
    cases h
    obtain ⟨_, rfl⟩ := (Stream.readExact_eq_ok_iff _ _ _ _).mp hheader
    obtain ⟨_, rfl⟩ := (Stream.readExact_eq_ok_iff _ _ _ _).mp hkey
    have hraw := ((Request.parse_eq_ok_iff _ _).mp hparse).1
    rw [hraw]
    exact ⟨by simp, hparse⟩
  · rintro ⟨rfl, hparse⟩
    obtain ⟨_, hraw, hkey⟩ := (Request.parse_eq_ok_iff _ _).mp hparse
    have hheader : Stream.readExact ⟨request.raw ++ rest.bytes, rest.ending⟩ headerLen =
        some (.ok (writeNe [version, request.ty.asI32, Int32.ofNat request.key.length],
          ⟨request.key ++ rest.bytes, rest.ending⟩)) := by
      rw [Stream.readExact_eq_ok_iff, hraw]
      simp [Request.encode, headerLen]
    have hlen : readNe (writeNe [version, request.ty.asI32, Int32.ofNat request.key.length]) 8 =
        Int32.ofNat request.key.length := by
      have := Octets.readNe_writeNe
        [version, request.ty.asI32, Int32.ofNat request.key.length] [] 2 (by simp)
      rwa [List.append_nil] at this
    have hrest : Stream.readExact ⟨request.key ++ rest.bytes, rest.ending⟩ request.key.length =
        some (.ok (request.key, rest)) := by
      rw [Stream.readExact_eq_ok_iff]
      exact ⟨rfl, rfl⟩
    have hjoin : writeNe [version, request.ty.asI32, Int32.ofNat request.key.length] ++
        request.key = request.raw := hraw.symm
    simp [readRequest, hheader, hlen, toInt_ofNat_key hkey, Nat.not_lt.mpr hkey, hrest, hjoin,
      hparse]

theorem intAt_writeNe (words : List Int32) (body : Bytes) (i : Nat) (h : i < words.length) :
    intAt (writeNe words ++ body) (4 * i) = some words[i].toInt := by
  have hle : 4 * i + 4 ≤ (writeNe words ++ body).length := by
    rw [List.length_append, Octets.length_writeNe]
    omega
  rw [intAt, if_pos hle, Octets.readNe_writeNe words body i h]

/-- What the check asks of a `GETAI` reply, word by word. -/
theorem validHostReply_ai_iff (ver found naddrs addrslen canonlen error : Int32) (body : Bytes) :
    validHostReply .getAi (writeNe [ver, found, naddrs, addrslen, canonlen, error] ++ body) = true ↔
      ver = version ∧ (found = 0 ∨ found = 1 ∧ 0 ≤ naddrs.toInt ∧ 0 ≤ addrslen.toInt ∧
        0 ≤ canonlen.toInt ∧
        (body.length : Int) = naddrs.toInt + addrslen.toInt + canonlen.toInt) := by
  have hint := intAt_writeNe [ver, found, naddrs, addrslen, canonlen, error] body
  have h0 := hint 0 (by simp)
  have h1 := hint 1 (by simp)
  have h2 := hint 2 (by simp)
  have h3 := hint 3 (by simp)
  have h4 := hint 4 (by simp)
  simp only [Nat.mul_zero, Nat.mul_one, Nat.reduceMul, List.getElem_cons_zero,
    List.getElem_cons_succ] at h0 h1 h2 h3 h4
  have hlen : ((writeNe [ver, found, naddrs, addrslen, canonlen, error] ++ body).length : Int) =
      aiHeaderLen + body.length := by
    simp [aiHeaderLen]
  simp only [validHostReply, h0, h1, h2, h3, h4, hlen]
  by_cases hver : ver = version
  · by_cases hzero : found = 0
    · simp [hver, hzero]
    · by_cases hone : found = 1
      · simp [hver, hone]
        omega
      · simp [hver, hzero, hone, toInt_eq_zero_iff, toInt_eq_one_iff]
  · simp [hver, Int32.toInt_inj]

/-- What the check asks of the other replies; the aliases' lengths are not read. -/
theorem validHostReply_hst_iff {ty : RequestType} (hty : ty ≠ .getAi)
    (ver found nameLen aliasesCnt family length addrCnt error : Int32) (body : Bytes) :
    validHostReply ty
        (writeNe [ver, found, nameLen, aliasesCnt, family, length, addrCnt, error] ++ body) = true ↔
      ver = version ∧ (found = 0 ∨ found = 1 ∧ 0 ≤ nameLen.toInt ∧ 0 ≤ aliasesCnt.toInt ∧
        0 ≤ addrCnt.toInt ∧ (length.toInt = 4 ∨ length.toInt = 16) ∧
        nameLen.toInt + aliasesCnt.toInt * 4 + addrCnt.toInt * length.toInt ≤ body.length) := by
  have hint := intAt_writeNe
    [ver, found, nameLen, aliasesCnt, family, length, addrCnt, error] body
  have h0 := hint 0 (by simp)
  have h1 := hint 1 (by simp)
  have h2 := hint 2 (by simp)
  have h3 := hint 3 (by simp)
  have h5 := hint 5 (by simp)
  have h6 := hint 6 (by simp)
  simp only [Nat.mul_zero, Nat.mul_one, Nat.reduceMul, List.getElem_cons_zero,
    List.getElem_cons_succ] at h0 h1 h2 h3 h5 h6
  have hlen : ((writeNe [ver, found, nameLen, aliasesCnt, family, length, addrCnt, error] ++
      body).length : Int) = hstHeaderLen + body.length := by
    simp [hstHeaderLen]
  simp only [validHostReply, h0, h1, h2, h3, h5, h6, hlen]
  by_cases hver : ver = version
  · by_cases hzero : found = 0
    · simp [hver, hzero]
    · by_cases hone : found = 1
      · simp [hver, hone, and_assoc]
        omega
      · simp [hver, hzero, hone, toInt_eq_zero_iff, toInt_eq_one_iff]
  · simp [hver, Int32.toInt_inj]

theorem notFound_of_ne_getAi {ty : RequestType} (h : ty ≠ .getAi) (error : Int32) :
    notFound ty error = hstNotFound error := by
  cases ty <;> first | rfl | exact absurd rfl h

theorem found_of_ne_getAi {ty : RequestType} (h : ty ≠ .getAi) (name : Str)
    (addrs : List IpAddr) : ∃ family,
      found ty name addrs = (hstFound name family addrs).getD (hstNotFound noData) := by
  cases ty <;> first | exact absurd rfl h | exact ⟨_, rfl⟩

/-- A `GETHOSTBYNAME` reply says NO_DATA exactly where no address is of its family. -/
theorem hstFound_getD (name : Str) (family : Int32) (addrs : List IpAddr) :
    (hstFound name family addrs).getD (hstNotFound noData) =
      if addrs.filter (fun a => addressFamily a == family) = [] then hstNotFound noData
      else hstReply 1 0 name family (addrs.filter (fun a => addressFamily a == family)) := by
  simp only [hstFound, List.isEmpty_iff]
  split <;> rfl

@[simp] theorem length_hstNotFound (error : Int32) :
    (hstNotFound error).length = hstHeaderLen := by
  simp [hstNotFound, hstReply, hstHeaderLen]

/-- A negative reply of the daemon's own is valid, whatever the error. -/
theorem validHostReply_notFound (ty : RequestType) (error : Int32) :
    validHostReply ty (notFound ty error) = true := by
  by_cases hty : ty = .getAi
  · subst hty
    simp only [notFound, aiNotFound, aiReply]
    rw [validHostReply_ai_iff]
    exact ⟨rfl, .inl rfl⟩
  · simp only [notFound_of_ne_getAi hty, hstNotFound, hstReply]
    rw [validHostReply_hst_iff hty]
    exact ⟨rfl, .inl rfl⟩

theorem validHostReply_aiFound (name : Str) (addrs : List IpAddr)
    (hsize : (aiFound name addrs).length < 2 ^ 31) :
    validHostReply .getAi (aiFound name addrs) = true := by
  simp only [aiFound, aiReply, if_true, List.length_append, Octets.length_writeNe,
    List.length_cons, List.length_nil, List.length_map] at hsize ⊢
  have hname : (Utf8.encode name).length = byteLen name := rfl
  rw [validHostReply_ai_iff, Int32.toInt_ofNat_of_lt (by omega),
    Int32.toInt_ofNat_of_lt (by omega), Int32.toInt_ofNat_of_lt (by omega)]
  refine ⟨rfl, .inr ⟨rfl, by omega, by omega, by omega, ?_⟩⟩
  simp only [List.length_append, List.length_map, List.length_cons, List.length_nil, hname]
  omega

theorem validHostReply_hstReply {ty : RequestType} (hty : ty ≠ .getAi) (name : Str)
    (family : Int32) (addrs : List IpAddr) (h : ∀ a ∈ addrs, addressFamily a = family)
    (hsize : (hstReply 1 0 name family addrs).length < 2 ^ 31) :
    validHostReply ty (hstReply 1 0 name family addrs) = true := by
  have haddrs := length_flatMap_addressBytes family addrs h
  have hname : (Utf8.encode name).length = byteLen name := rfl
  have hlength : (if family = afInet6 then (16 : Int32) else 4).toInt =
      ((if family = afInet6 then 16 else 4 : Nat) : Int) := by
    split <;> rfl
  have hfour : 4 ≤ if family = afInet6 then 16 else 4 := by split <;> omega
  have hcount : addrs.length * 4 ≤ addrs.length * if family = afInet6 then 16 else 4 :=
    Nat.mul_le_mul_left _ hfour
  simp only [hstReply, if_true, List.length_append, Octets.length_writeNe, List.length_cons,
    List.length_nil, haddrs, hname] at hsize ⊢
  have hnameLen : (Int32.ofNat (byteLen name) + 1).toInt = (byteLen name + 1 : Nat) := by
    rw [← Int32.toInt_ofNat_of_lt (show byteLen name + 1 < 2 ^ 31 by omega), Int32.ofNat_add]
    rfl
  rw [validHostReply_hst_iff hty, hnameLen, hlength, Int32.toInt_ofNat_of_lt (by omega)]
  refine ⟨rfl, .inr ⟨rfl, by omega, by decide, by omega, ?_, ?_⟩⟩
  · split <;> simp
  · simp only [List.length_append, List.length_cons, List.length_nil, haddrs, hname]
    push_cast
    have hzero : (0 : Int32).toInt = 0 := rfl
    omega

theorem length_hstReply_le (found error family : Int32) (name : Str) (addrs : List IpAddr) :
    (hstReply found error name family addrs).length ≤
      hstHeaderLen + (byteLen name + 1 + 17 * addrs.length) := by
  have haddrs := length_flatMap_addressBytes_le addrs
  have hname : (Utf8.encode name).length = byteLen name := rfl
  simp only [hstReply, List.length_append, Octets.length_writeNe, List.length_cons,
    List.length_nil, hstHeaderLen]
  split
  · simp only [List.length_append, List.length_cons, List.length_nil, hname]
    omega
  · simp

theorem length_hstFound_le (name : Str) (family : Int32) (addrs : List IpAddr) :
    ((hstFound name family addrs).getD (hstNotFound noData)).length ≤
      hstHeaderLen + (byteLen name + 1 + 17 * addrs.length) := by
  simp only [hstFound]
  split
  · have hle := length_hstReply_le 0 noData (-1) [] []
    have hempty : byteLen [] = 0 := rfl
    rw [hempty, List.length_nil] at hle
    rw [Option.getD_none, hstNotFound]
    omega
  · have hle := length_hstReply_le 1 0 family name
      (addrs.filter (fun a => addressFamily a == family))
    have hfilter := List.length_filter_le (fun a => addressFamily a == family) addrs
    rw [Option.getD_some]
    omega

/-- The size of a reply is bounded by the sizes of what is put in. -/
theorem length_found_le (ty : RequestType) (name : Str) (addrs : List IpAddr) :
    (found ty name addrs).length ≤ hstHeaderLen + (byteLen name + 1 + 17 * addrs.length) := by
  have hai : (aiFound name addrs).length ≤
      hstHeaderLen + (byteLen name + 1 + 17 * addrs.length) := by
    have haddrs := length_flatMap_addressBytes_le addrs
    have hname : (Utf8.encode name).length = byteLen name := rfl
    simp only [aiFound, aiReply, if_true, List.length_append, Octets.length_writeNe,
      List.length_cons, List.length_nil, List.length_map, hname, hstHeaderLen]
    omega
  cases ty <;> first | exact hai | exact length_hstFound_le name _ addrs

/-- So is a positive one, as long as its lengths fit. -/
theorem validHostReply_found (ty : RequestType) (name : Str) (addrs : List IpAddr)
    (hsize : (found ty name addrs).length < 2 ^ 31) :
    validHostReply ty (found ty name addrs) = true := by
  by_cases hty : ty = .getAi
  · subst hty
    exact validHostReply_aiFound name addrs hsize
  · obtain ⟨family, hfound⟩ := found_of_ne_getAi hty name addrs
    rw [hfound] at hsize ⊢
    rw [hstFound_getD] at hsize ⊢
    split
    · rw [← notFound_of_ne_getAi hty]
      exact validHostReply_notFound ty noData
    · next hsome =>
      rw [if_neg hsome] at hsize
      refine validHostReply_hstReply hty name family _ ?_ hsize
      intro a ha
      exact eq_of_beq (List.mem_filter.mp ha).2

end

end Deezns.Nscd
