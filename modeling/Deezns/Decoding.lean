import Deezns.NscdFrontend

/-!
# Replies as their clients read them

The header of a positive reply says how long the areas behind it are. A client
cuts them out, walks the addresses by their families and reads the name up to
its NUL. What the daemon puts into a reply of its own is read back.
-/
namespace Deezns.Nscd

open Octets (Bytes NativeEndian readNe writeNe)
open Utf8 (Str)
open Text

/-- How many octets an address of a family has. -/
def addressLen (family : Int32) : Nat := if family = afInet6 then 16 else 4

theorem addressLen_cases (family : Int32) : addressLen family = 4 ∨ addressLen family = 16 := by
  unfold addressLen
  split
  · exact .inr rfl
  · exact .inl rfl

/-- Every address takes some octets. -/
theorem length_le_length_packed (addrs : List IpAddr) :
    addrs.length ≤ (addrs.flatMap addressBytes).length := by
  induction addrs with
  | nil => exact Nat.le_refl 0
  | cons a addrs ih =>
    have hlen : (addressBytes a).length = addressLen (addressFamily a) := length_addressBytes a
    have hfour := addressLen_cases (addressFamily a)
    rw [List.flatMap_cons, List.length_append, List.length_cons]
    omega

def addressOf (family : Int32) (octets : Bytes) : Option IpAddr :=
  if family = afInet then
    if h : octets.length = 4 then some (.v4 ⟨octets, h⟩) else none
  else if family = afInet6 then
    if h : octets.length = 16 then some (.v6 ⟨octets, h⟩) else none
  else none

/-- The addresses of the given families off the front of packed ones. -/
def walk : List Int32 → Bytes → Option (List IpAddr × Bytes)
  | [], bytes => some ([], bytes)
  | family :: families, bytes =>
    match addressOf family (bytes.take (addressLen family)) with
    | none => none
    | some a => (walk families (bytes.drop (addressLen family))).map (fun x => (a :: x.1, x.2))

theorem addressOf_eq_some_iff (family : Int32) (octets : Bytes) (a : IpAddr) :
    addressOf family octets = some a ↔ addressFamily a = family ∧ addressBytes a = octets := by
  have hne : afInet6 ≠ afInet := by decide
  unfold addressOf
  constructor
  · intro h
    split at h
    · next hfamily =>
      obtain ⟨hlen, heq⟩ := Option.dite_none_right_eq_some.mp h
      cases heq
      exact ⟨hfamily.symm, rfl⟩
    · split at h
      · next hfamily =>
        obtain ⟨hlen, heq⟩ := Option.dite_none_right_eq_some.mp h
        cases heq
        exact ⟨hfamily.symm, rfl⟩
      · cases h
  · rintro ⟨rfl, rfl⟩
    cases a with
    | v4 a => simp [addressFamily, addressBytes, a.length_octets]
    | v6 a => simp [addressFamily, addressBytes, a.length_octets, hne]

/-- What a walk finds, and where it ends. -/
theorem walk_eq_some_iff (families : List Int32) (bytes : Bytes) (addrs : List IpAddr)
    (rest : Bytes) : walk families bytes = some (addrs, rest) ↔
      addrs.map addressFamily = families ∧ bytes = addrs.flatMap addressBytes ++ rest := by
  induction families generalizing bytes addrs with
  | nil =>
    rw [walk, List.map_eq_nil_iff, Option.some.injEq, Prod.mk.injEq]
    constructor
    · rintro ⟨rfl, rfl⟩
      exact ⟨rfl, rfl⟩
    · rintro ⟨rfl, rfl⟩
      exact ⟨rfl, rfl⟩
  | cons family families ih =>
    rw [walk]
    constructor
    · intro h
      split at h
      · cases h
      · next a ha =>
        obtain ⟨hfamily, hoctets⟩ := (addressOf_eq_some_iff _ _ _).mp ha
        obtain ⟨⟨addrs', rest'⟩, hwalk, heq⟩ := Option.map_eq_some_iff.mp h
        cases heq
        obtain ⟨hfamilies, hbytes⟩ := (ih _ _).mp hwalk
        refine ⟨by rw [List.map_cons, hfamily, hfamilies], ?_⟩
        rw [List.flatMap_cons, hoctets, List.append_assoc, ← hbytes, List.take_append_drop]
    · rintro ⟨hfamilies, rfl⟩
      cases addrs with
      | nil => cases hfamilies
      | cons a addrs =>
        cases hfamilies
        have hlen : (addressBytes a).length = addressLen (addressFamily a) := length_addressBytes a
        rw [List.flatMap_cons, List.append_assoc, List.take_left' hlen, List.drop_left' hlen,
          (addressOf_eq_some_iff _ _ _).mpr ⟨rfl, rfl⟩, (ih _ _).mpr ⟨rfl, rfl⟩]
        rfl

/-- The family a `GETAI` reply has in a byte. -/
def familyOf (b : UInt8) : Int32 := Int32.ofNat b.toNat

theorem familyOf_addressFamily (a : IpAddr) :
    familyOf (addressFamily a).toUInt32.toUInt8 = addressFamily a := by
  cases a <;> rfl

/-- A walk by the families that were written finds the addresses. -/
theorem walk_families (addrs : List IpAddr) :
    walk ((addrs.map (fun a => (addressFamily a).toUInt32.toUInt8)).map familyOf)
      (addrs.flatMap addressBytes) = some (addrs, []) := by
  rw [walk_eq_some_iff, List.append_nil, List.map_map]
  exact ⟨List.map_congr_left (fun a _ => (familyOf_addressFamily a).symm), rfl⟩

/-- Text and the NUL that ends it, and nothing else. -/
def readCString (area : Bytes) : Option Str :=
  if area = cString area ++ [0] then Utf8.decode (cString area) else none

theorem readCString_encode {name : Str} (h : '\x00' ∉ name) :
    readCString (Utf8.encode name ++ [0]) = some name := by
  have hall : ∀ b ∈ Utf8.encode name, (b != 0) = true := by
    intro b hb
    rw [bne_iff_ne]
    rintro rfl
    exact h ((Utf8.ascii_mem_encode_iff (show '\x00'.toNat < 128 by decide) name).mp hb)
  have hstring : cString (Utf8.encode name ++ [0]) = Utf8.encode name := by
    rw [cString, List.takeWhile_append_of_pos hall]
    simp
  rw [readCString, hstring, if_pos rfl, Utf8.decode_encode]

section
variable [NativeEndian]

/-- A length or a count in a header. -/
def word (reply : Bytes) (pos : Nat) : Nat := (readNe reply pos).toInt.toNat

/-- What stands behind the header of a `GETAI` reply. -/
structure AiBody where
  packed : Bytes
  families : Bytes
  canon : Bytes
  deriving DecidableEq, Repr

def aiBody (reply : Bytes) : AiBody :=
  let body := reply.drop aiHeaderLen
  let addrslen := word reply 12
  let naddrs := word reply 8
  ⟨body.take addrslen, (body.drop addrslen).take naddrs, body.drop (addrslen + naddrs)⟩

def decodeAi (reply : Bytes) : Option (Str × List IpAddr) :=
  let body := aiBody reply
  if readNe reply 0 = version ∧ readNe reply 4 = 1 ∧ body.canon.length = word reply 16 then
    match walk (body.families.map familyOf) body.packed with
    | some (addrs, []) => (readCString body.canon).map (fun name => (name, addrs))
    | _ => none
  else none

/-- A `GETHOSTBYNAME` reply; behind the addresses there is nothing but the
aliases. -/
def decodeHst (reply : Bytes) : Option (Str × List IpAddr) :=
  let body := reply.drop hstHeaderLen
  let nameLen := word reply 8
  let aliasesCnt := word reply 12
  let family := readNe reply 16
  let length := word reply 20
  let addrCnt := word reply 24
  let aliasLens := (body.drop nameLen).take (4 * aliasesCnt)
  let packed := (body.drop (nameLen + 4 * aliasesCnt)).take (addrCnt * length)
  let aliases := body.drop (nameLen + 4 * aliasesCnt + addrCnt * length)
  if readNe reply 0 = version ∧ readNe reply 4 = 1 ∧ length = addressLen family ∧
      aliases.length = ((List.range aliasesCnt).map (fun i => word aliasLens (4 * i))).sum then
    match walk (List.replicate addrCnt family) packed with
    | some (addrs, []) => (readCString (body.take nameLen)).map (fun name => (name, addrs))
    | _ => none
  else none

theorem word_of_readNe {reply : Bytes} {pos n : Nat} (h : readNe reply pos = Int32.ofNat n)
    (hn : n < 2 ^ 31) : word reply pos = n := by
  rw [word, h, Int32.toInt_ofNat_of_lt hn, Int.toNat_natCast]

/-- The positive `GETAI` reply of an nscd: addresses, packed, then a family for
each, then a canonical name. -/
def encodeAi (addrs : List IpAddr) (canon : Bytes) (error : Int32) : Bytes :=
  writeNe [version, 1, Int32.ofNat addrs.length,
    Int32.ofNat (addrs.flatMap addressBytes).length, Int32.ofNat canon.length, error] ++
  (addrs.flatMap addressBytes ++
    (addrs.map (fun a => (addressFamily a).toUInt32.toUInt8) ++ canon))

theorem aiFound_eq (name : Str) (addrs : List IpAddr) :
    aiFound name addrs = encodeAi addrs (Utf8.encode name ++ [0]) 0 := by
  simp [aiFound, aiReply, encodeAi, byteLen]

theorem length_encodeAi (addrs : List IpAddr) (canon : Bytes) (error : Int32) :
    (encodeAi addrs canon error).length =
      aiHeaderLen + (addrs.flatMap addressBytes).length + addrs.length + canon.length := by
  simp [encodeAi, aiHeaderLen]
  omega

/-- The words of the header, in their places. -/
theorem readNe_encodeAi (addrs : List IpAddr) (canon : Bytes) (error : Int32) :
    readNe (encodeAi addrs canon error) 0 = version ∧
    readNe (encodeAi addrs canon error) 4 = 1 ∧
    readNe (encodeAi addrs canon error) 8 = Int32.ofNat addrs.length ∧
    readNe (encodeAi addrs canon error) 12 =
      Int32.ofNat (addrs.flatMap addressBytes).length ∧
    readNe (encodeAi addrs canon error) 16 = Int32.ofNat canon.length := by
  have hwords := Octets.readNe_writeNe [version, 1, Int32.ofNat addrs.length,
    Int32.ofNat (addrs.flatMap addressBytes).length, Int32.ofNat canon.length, error]
    (addrs.flatMap addressBytes ++
      (addrs.map (fun a => (addressFamily a).toUInt32.toUInt8) ++ canon))
  exact ⟨hwords 0 (by simp), hwords 1 (by simp), hwords 2 (by simp), hwords 3 (by simp),
    hwords 4 (by simp)⟩

/-- The areas are cut out as they were put together, if their sizes are read. -/
theorem aiBody_encodeAi {addrs : List IpAddr} {canon : Bytes} {error : Int32}
    (hnaddrs : word (encodeAi addrs canon error) 8 = addrs.length)
    (haddrslen : word (encodeAi addrs canon error) 12 = (addrs.flatMap addressBytes).length) :
    aiBody (encodeAi addrs canon error) = ⟨addrs.flatMap addressBytes,
      addrs.map (fun a => (addressFamily a).toUInt32.toUInt8), canon⟩ := by
  have hdrop : (encodeAi addrs canon error).drop aiHeaderLen = addrs.flatMap addressBytes ++
      (addrs.map (fun a => (addressFamily a).toUInt32.toUInt8) ++ canon) :=
    List.drop_left' (by simp [aiHeaderLen])
  have hcount : (addrs.map (fun a => (addressFamily a).toUInt32.toUInt8)).length =
      addrs.length := List.length_map _
  simp only [aiBody, hdrop, hnaddrs, haddrslen, List.take_left, List.drop_left, ← hcount]
  rw [← List.drop_drop, List.drop_left, List.drop_left]

theorem hstReply_eq (name : Str) (family : Int32) (addrs : List IpAddr) :
    hstReply 1 0 name family addrs =
      writeNe [version, 1, Int32.ofNat (Utf8.encode name ++ [0]).length, Int32.ofNat 0, family,
        Int32.ofNat (addressLen family), Int32.ofNat addrs.length, 0] ++
      (Utf8.encode name ++ [0] ++ addrs.flatMap addressBytes) := by
  have hlength : (if family = afInet6 then 16 else 4 : Int32) =
      Int32.ofNat (addressLen family) := by
    unfold addressLen
    split <;> rfl
  have hnameLen : Int32.ofNat (byteLen name) + 1 =
      Int32.ofNat (Utf8.encode name ++ [0]).length := by
    rw [List.length_append, Int32.ofNat_add]
    rfl
  simp only [hstReply, if_true, hlength, hnameLen]
  rfl

/-- A `GETAI` reply is read back as what was put in. -/
theorem decodeAi_aiFound {name : Str} (hname : '\x00' ∉ name) (addrs : List IpAddr)
    (hsize : (aiFound name addrs).length < 2 ^ 31) :
    decodeAi (aiFound name addrs) = some (name, addrs) := by
  rw [aiFound_eq] at hsize ⊢
  rw [length_encodeAi] at hsize
  obtain ⟨hversion, hfound, hnaddrs, haddrslen, hcanonlen⟩ :=
    readNe_encodeAi addrs (Utf8.encode name ++ [0]) 0
  have hbody := aiBody_encodeAi (word_of_readNe hnaddrs (by omega))
    (word_of_readNe haddrslen (by omega))
  simp only [decodeAi, hbody, walk_families]
  rw [if_pos ⟨hversion, hfound, (word_of_readNe hcanonlen (by omega)).symm⟩,
    readCString_encode hname]
  rfl

/-- The words of the other header, in their places. -/
theorem readNe_hstReply (name : Str) (family : Int32) (addrs : List IpAddr) :
    readNe (hstReply 1 0 name family addrs) 0 = version ∧
    readNe (hstReply 1 0 name family addrs) 4 = 1 ∧
    readNe (hstReply 1 0 name family addrs) 8 = Int32.ofNat (Utf8.encode name ++ [0]).length ∧
    readNe (hstReply 1 0 name family addrs) 12 = Int32.ofNat 0 ∧
    readNe (hstReply 1 0 name family addrs) 16 = family ∧
    readNe (hstReply 1 0 name family addrs) 20 = Int32.ofNat (addressLen family) ∧
    readNe (hstReply 1 0 name family addrs) 24 = Int32.ofNat addrs.length := by
  have hwords := Octets.readNe_writeNe [version, 1, Int32.ofNat (Utf8.encode name ++ [0]).length,
    Int32.ofNat 0, family, Int32.ofNat (addressLen family), Int32.ofNat addrs.length, 0]
    (Utf8.encode name ++ [0] ++ addrs.flatMap addressBytes)
  rw [hstReply_eq]
  exact ⟨hwords 0 (by simp), hwords 1 (by simp), hwords 2 (by simp), hwords 3 (by simp),
    hwords 4 (by simp), hwords 5 (by simp), hwords 6 (by simp)⟩

/-- So is a `GETHOSTBYNAME` reply, if the addresses are of its family. -/
theorem decodeHst_hstReply {name : Str} (hname : '\x00' ∉ name) {family : Int32}
    {addrs : List IpAddr} (hfamily : ∀ a ∈ addrs, addressFamily a = family)
    (hsize : (hstReply 1 0 name family addrs).length < 2 ^ 31) :
    decodeHst (hstReply 1 0 name family addrs) = some (name, addrs) := by
  let area := Utf8.encode name ++ [0]
  let packed := addrs.flatMap addressBytes
  have hpacked : packed.length = addrs.length * addressLen family :=
    length_flatMap_addressBytes family addrs hfamily
  have hfour := addressLen_cases family
  have hle : addrs.length ≤ packed.length := length_le_length_packed addrs
  have hdrop : (hstReply 1 0 name family addrs).drop hstHeaderLen = area ++ packed := by
    rw [hstReply_eq]
    exact List.drop_left' (by simp [hstHeaderLen])
  have hlen := congrArg List.length hdrop
  rw [List.length_drop, List.length_append] at hlen
  obtain ⟨hversion, hfound, hnameLen, haliasesCnt, hfamilyWord, hlength, haddrCnt⟩ :=
    readNe_hstReply name family addrs
  have hnameLen : word (hstReply 1 0 name family addrs) 8 = area.length :=
    word_of_readNe hnameLen (show area.length < 2 ^ 31 by omega)
  have haliasesCnt := word_of_readNe haliasesCnt (by decide)
  have hlength := word_of_readNe hlength (by omega)
  have haddrCnt := word_of_readNe haddrCnt (by omega)
  have hwalk : walk (List.replicate addrs.length family) packed = some (addrs, []) := by
    rw [walk_eq_some_iff, List.append_nil]
    exact ⟨List.map_eq_replicate_iff.mpr hfamily, rfl⟩
  have htake : (area ++ packed).take area.length = area := List.take_left
  have hmiddle : (area ++ packed).drop (area.length + 4 * 0) = packed := List.drop_left
  have hend : (area ++ packed).drop (area.length + 4 * 0 + packed.length) = [] := by
    rw [← List.drop_drop, hmiddle, List.drop_length]
  simp only [decodeHst, hdrop, hnameLen, haliasesCnt, hlength, haddrCnt, hfamilyWord, ← hpacked,
    htake, hmiddle, hend, List.take_length, hwalk]
  rw [if_pos ⟨hversion, hfound, trivial, rfl⟩, readCString_encode hname]
  rfl

theorem hstReply_ne_hstNotFound (name : Str) (family : Int32) (addrs : List IpAddr)
    (error : Int32) : hstReply 1 0 name family addrs ≠ hstNotFound error := by
  intro h
  have hfound := (readNe_hstReply name family addrs).2.1
  have hnot : readNe (hstNotFound error) 4 = 0 := Octets.readNe_writeNe _ _ 1 (by simp)
  rw [h, hnot] at hfound
  cases hfound

/-- Either reply of the two families. -/
theorem hstFound_decodes {name : Str} (hname : '\x00' ∉ name) (family : Int32)
    (addrs : List IpAddr)
    (hsize : ((hstFound name family addrs).getD (hstNotFound noData)).length < 2 ^ 31) :
    ((hstFound name family addrs).getD (hstNotFound noData) = hstNotFound noData ↔
      ∀ a ∈ addrs, addressFamily a ≠ family) ∧
    ((∃ a ∈ addrs, addressFamily a = family) →
      decodeHst ((hstFound name family addrs).getD (hstNotFound noData)) =
        some (name, addrs.filter (fun a => addressFamily a == family))) := by
  have hnil : addrs.filter (fun a => addressFamily a == family) = [] ↔
      ∀ a ∈ addrs, addressFamily a ≠ family := by
    simp [List.filter_eq_nil_iff]
  rw [hstFound_getD] at hsize ⊢
  rw [← hnil]
  constructor
  · constructor
    · intro h
      by_contra hsome
      rw [if_neg hsome] at h
      exact hstReply_ne_hstNotFound _ _ _ _ h
    · intro h
      exact if_pos h
  · rintro ⟨a, ha, hfamily⟩
    have hsome : addrs.filter (fun a => addressFamily a == family) ≠ [] :=
      fun h => hnil.mp h a ha hfamily
    rw [if_neg hsome] at hsize ⊢
    exact decodeHst_hstReply hname (fun a ha => eq_of_beq (List.mem_filter.mp ha).2) hsize

/-- Positive replies are read back as what was put in: all of it for `GETAI`,
the addresses of one family else, or NO_DATA if there are none. -/
theorem found_decodes :
    (∀ (name : Str) (addrs : List IpAddr), '\x00' ∉ name →
      (found .getAi name addrs).length < 2 ^ 31 →
      decodeAi (found .getAi name addrs) = some (name, addrs)) ∧
    ∀ (ty : RequestType) (family : Int32),
      (ty = .getHostByName ∧ family = afInet ∨ ty = .getHostByNameV6 ∧ family = afInet6) →
      ∀ (name : Str) (addrs : List IpAddr), '\x00' ∉ name →
      (found ty name addrs).length < 2 ^ 31 →
        (found ty name addrs = notFound ty noData ↔ ∀ a ∈ addrs, addressFamily a ≠ family) ∧
        ((∃ a ∈ addrs, addressFamily a = family) →
          decodeHst (found ty name addrs) =
            some (name, addrs.filter (fun a => addressFamily a == family))) := by
  constructor
  · intro name addrs hname hsize
    exact decodeAi_aiFound hname addrs hsize
  · rintro ty family (⟨rfl, rfl⟩ | ⟨rfl, rfl⟩) name addrs hname hsize
    · exact hstFound_decodes hname afInet addrs hsize
    · exact hstFound_decodes hname afInet6 addrs hsize

end

/-- `192.0.2.1` and `2001:db8::1`. -/
def dualStack : List IpAddr :=
  [.v4 ⟨[192, 0, 2, 1], rfl⟩, .v6 ⟨[0x20, 1, 0xD, 0xB8] ++ List.replicate 11 0 ++ [1], rfl⟩]

theorem found_decodes_dualStack :
    @decodeAi littleEndian (@found littleEndian .getAi ['a'] dualStack) =
      some (['a'], dualStack) ∧
    @decodeHst littleEndian (@found littleEndian .getHostByNameV6 ['a'] dualStack) =
      some (['a'], dualStack.drop 1) := by
  obtain ⟨hai, hhst⟩ := @found_decodes littleEndian
  refine ⟨hai ['a'] dualStack (by decide) (by decide), ?_⟩
  exact (hhst .getHostByNameV6 afInet6 (.inr ⟨rfl, rfl⟩) ['a'] dualStack (by decide)
    (by decide)).2 (by decide)

end Deezns.Nscd
