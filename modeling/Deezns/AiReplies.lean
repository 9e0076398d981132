import Deezns.Decoding

/-!
# `GETAI` replies that are accepted

The check adds up the lengths in the header. What is behind it may be anything:
only where it is addresses packed with their families does a client that walks
them come out at the canonical name.
-/
namespace Deezns.Nscd

open Octets (Bytes NativeEndian readNe writeNe)

/-- A walk by families that are known takes as much as they say. -/
theorem walk_of_sizes {families : List Int32} {bytes : Bytes}
    (hfamilies : ∀ family ∈ families, family = afInet ∨ family = afInet6)
    (hsizes : (families.map addressLen).sum ≤ bytes.length) :
    ∃ addrs, walk families bytes = some (addrs, bytes.drop (families.map addressLen).sum) := by
  induction families generalizing bytes with
  | nil => exact ⟨[], rfl⟩
  | cons family families ih =>
    rw [List.forall_mem_cons] at hfamilies
    rw [List.map_cons, List.sum_cons] at hsizes ⊢
    have hlen : (bytes.take (addressLen family)).length = addressLen family :=
      List.length_take_of_le (by omega)
    obtain ⟨a, ha⟩ : ∃ a, addressOf family (bytes.take (addressLen family)) = some a := by
      rcases hfamilies.1 with rfl | rfl
      · exact ⟨_, (if_pos rfl).trans (dif_pos hlen)⟩
      · exact ⟨_, (if_neg (by decide)).trans ((if_pos rfl).trans (dif_pos hlen))⟩
    obtain ⟨addrs, hwalk⟩ := ih hfamilies.2
      (show _ ≤ (bytes.drop (addressLen family)).length by rw [List.length_drop]; omega)
    refine ⟨a :: addrs, ?_⟩
    rw [walk, ha]
    simp only [hwalk, Option.map_some, List.drop_drop]

theorem toUInt8_familyOf (b : UInt8) : (familyOf b).toUInt32.toUInt8 = b := by
  apply UInt8.toNat_inj.mp
  simp [familyOf]

/-- A count that is not negative on the wire is no more than what was counted. -/
theorem toInt_ofNat_le {n : Nat} (h : 0 ≤ (Int32.ofNat n).toInt) : (Int32.ofNat n).toInt ≤ n := by
  have hsize : (Int32.size : Int) = 4294967296 := rfl
  rw [Int32.toInt_ofNat', Int.bmod_def, hsize] at h ⊢
  omega

section
variable [NativeEndian]

/-- The families are known, and their addresses fill the area for them. -/
structure AiWellFormed (reply : Bytes) : Prop where
  families : ∀ b ∈ (aiBody reply).families, familyOf b = afInet ∨ familyOf b = afInet6
  sizes : ((aiBody reply).families.map (fun b => addressLen (familyOf b))).sum = word reply 12

/-- The areas of a reply are as long as its header says. -/
structure AiMeasured (reply : Bytes) : Prop where
  packed : (aiBody reply).packed.length = word reply 12
  families : (aiBody reply).families.length = word reply 8
  canon : (aiBody reply).canon.length = word reply 16

theorem validHostReply_short_ai {reply : Bytes} (h : reply.length < aiHeaderLen) :
    validHostReply .getAi reply = false := by
  have hlen : ((reply.length : Int) < (aiHeaderLen : Int)) := by exact_mod_cast h
  unfold validHostReply
  split
  · split
    · rfl
    · exact if_pos hlen
  · rfl

/-- A reply is its header and what is behind it. -/
theorem ai_header_append {reply : Bytes} (h : validHostReply .getAi reply = true) :
    writeNe [readNe reply 0, readNe reply 4, readNe reply 8, readNe reply 12, readNe reply 16,
      readNe reply 20] ++ reply.drop aiHeaderLen = reply := by
  have hlong : aiHeaderLen ≤ reply.length := by
    by_contra hshort
    rw [validHostReply_short_ai (Nat.lt_of_not_le hshort)] at h
    cases h
  exact Octets.writeNe_readNe_append reply 6 (by simpa [aiHeaderLen] using hlong)

/-- What the check makes sure of. -/
theorem valid_ai_found {reply : Bytes} (h : validHostReply .getAi reply = true)
    (hfound : readNe reply 4 = 1) : readNe reply 0 = version ∧ 0 ≤ (readNe reply 8).toInt ∧
      0 ≤ (readNe reply 12).toInt ∧ 0 ≤ (readNe reply 16).toInt ∧
      ((reply.drop aiHeaderLen).length : Int) =
        (readNe reply 8).toInt + (readNe reply 12).toInt + (readNe reply 16).toInt := by
  have hvalid := h
  rw [← ai_header_append h, validHostReply_ai_iff] at hvalid
  obtain ⟨hversion, hzero | ⟨_, hnaddrs, haddrslen, hcanonlen, hlen⟩⟩ := hvalid
  · rw [hfound] at hzero
    cases hzero
  · exact ⟨hversion, hnaddrs, haddrslen, hcanonlen, hlen⟩

theorem toInt_eq_word {reply : Bytes} {pos : Nat} (h : 0 ≤ (readNe reply pos).toInt) :
    (readNe reply pos).toInt = (word reply pos : Int) :=
  (Int.toNat_of_nonneg h).symm

theorem aiMeasured_of_valid {reply : Bytes} (h : validHostReply .getAi reply = true)
    (hfound : readNe reply 4 = 1) : AiMeasured reply := by
  obtain ⟨_, hnaddrs, haddrslen, hcanonlen, hlen⟩ := valid_ai_found h hfound
  rw [toInt_eq_word hnaddrs, toInt_eq_word haddrslen, toInt_eq_word hcanonlen] at hlen
  constructor
  · exact List.length_take_of_le (by omega)
  · exact List.length_take_of_le (by rw [List.length_drop]; omega)
  · simp only [aiBody, List.length_drop] at hlen ⊢
    omega

/-- A client that walks a well-formed reply takes all of the addresses' area. -/
theorem AiWellFormed.walk {reply : Bytes} (h : AiWellFormed reply) (hmeasured : AiMeasured reply) :
    ∃ addrs, walk ((aiBody reply).families.map familyOf) (aiBody reply).packed =
      some (addrs, []) := by
  have hsum : (((aiBody reply).families.map familyOf).map addressLen).sum =
      (aiBody reply).packed.length := by
    rw [List.map_map, hmeasured.packed]
    exact h.sizes
  obtain ⟨addrs, hwalk⟩ := walk_of_sizes (List.forall_mem_map.mpr h.families) hsum.le
  rw [hsum, List.drop_length] at hwalk
  exact ⟨addrs, hwalk⟩

theorem ofNat_word {reply : Bytes} {pos n : Nat} (h : 0 ≤ (readNe reply pos).toInt)
    (hn : n = word reply pos) : Int32.ofNat n = readNe reply pos := by
  rw [hn]
  exact ofNat_toNat_toInt h

/-- What a walk finds was written by an encoder. -/
theorem eq_encodeAi_of_walk {reply : Bytes} (h : validHostReply .getAi reply = true)
    (hfound : readNe reply 4 = 1) {addrs : List IpAddr}
    (hwalk : walk ((aiBody reply).families.map familyOf) (aiBody reply).packed =
      some (addrs, [])) :
    reply = encodeAi addrs (aiBody reply).canon (readNe reply 20) := by
  obtain ⟨hversion, hnaddrs, haddrslen, hcanonlen, _⟩ := valid_ai_found h hfound
  have hmeasured := aiMeasured_of_valid h hfound
  obtain ⟨hfamilies, hpacked⟩ := (walk_eq_some_iff _ _ _ _).mp hwalk
  rw [List.append_nil] at hpacked
  have hbytes : addrs.map (fun a => (addressFamily a).toUInt32.toUInt8) =
      (aiBody reply).families := by
    have hback : ((aiBody reply).families.map familyOf).map (fun f => f.toUInt32.toUInt8) =
        (aiBody reply).families := by
      rw [List.map_map]
      exact (List.map_congr_left (fun b _ => toUInt8_familyOf b)).trans (List.map_id _)
    rw [← hback, ← hfamilies, List.map_map]
    rfl
  have hcount : addrs.length = word reply 8 := by
    rw [← hmeasured.families, ← hbytes, List.length_map]
  have hbody : (aiBody reply).packed ++ ((aiBody reply).families ++ (aiBody reply).canon) =
      reply.drop aiHeaderLen := by
    simp only [aiBody]
    rw [← List.drop_drop, List.take_append_drop, List.take_append_drop]
  rw [encodeAi, ← hpacked, hbytes, hbody, ofNat_word hnaddrs hcount,
    ofNat_word haddrslen hmeasured.packed, ofNat_word hcanonlen hmeasured.canon, ← hversion,
    ← hfound]
  exact (ai_header_append h).symm

/-- An encoded reply that is accepted has the areas that were encoded. -/
theorem aiBody_of_valid {addrs : List IpAddr} {canon : Bytes} {error : Int32}
    (h : validHostReply .getAi (encodeAi addrs canon error) = true) :
    word (encodeAi addrs canon error) 12 = (addrs.flatMap addressBytes).length ∧
    aiBody (encodeAi addrs canon error) = ⟨addrs.flatMap addressBytes,
      addrs.map (fun a => (addressFamily a).toUInt32.toUInt8), canon⟩ := by
  obtain ⟨_, hfound, hreadNaddrs, hreadAddrslen, hreadCanonlen⟩ :=
    readNe_encodeAi addrs canon error
  obtain ⟨_, hnaddrs, haddrslen, hcanonlen, hlen⟩ := valid_ai_found h hfound
  rw [List.length_drop, length_encodeAi] at hlen
  rw [hreadNaddrs] at hnaddrs hlen
  rw [hreadAddrslen] at haddrslen hlen
  rw [hreadCanonlen] at hcanonlen hlen
  -- none of the three is larger than what was counted, and their sum is the same
  have hnaddrsLe := toInt_ofNat_le hnaddrs
  have haddrslenLe := toInt_ofNat_le haddrslen
  have hcanonlenLe := toInt_ofNat_le hcanonlen
  have hword8 : word (encodeAi addrs canon error) 8 = addrs.length := by
    rw [word, hreadNaddrs]
    omega
  have hword12 : word (encodeAi addrs canon error) 12 = (addrs.flatMap addressBytes).length := by
    rw [word, hreadAddrslen]
    omega
  exact ⟨hword12, aiBody_encodeAi hword8 hword12⟩

/-- An accepted reply is well formed exactly if it is one that an nscd encodes;
then a client stays inside the addresses. -/
theorem accepted_ai_wellFormed_iff {reply : Bytes} (h : validHostReply .getAi reply = true)
    (hfound : readNe reply 4 = 1) :
    (AiWellFormed reply ↔ ∃ addrs canon error, reply = encodeAi addrs canon error) ∧
    (AiWellFormed reply → AiMeasured reply ∧ ∃ addrs,
      walk ((aiBody reply).families.map familyOf) (aiBody reply).packed = some (addrs, [])) := by
  have hmeasured := aiMeasured_of_valid h hfound
  refine ⟨⟨?_, ?_⟩, fun hwell => ⟨hmeasured, hwell.walk hmeasured⟩⟩
  · intro hwell
    obtain ⟨addrs, hwalk⟩ := hwell.walk hmeasured
    exact ⟨addrs, _, _, eq_encodeAi_of_walk h hfound hwalk⟩
  · rintro ⟨addrs, canon, error, rfl⟩
    obtain ⟨haddrslen, hbody⟩ := aiBody_of_valid h
    constructor
    · intro b hb
      rw [hbody, List.mem_map] at hb
      obtain ⟨a, _, rfl⟩ := hb
      rw [familyOf_addressFamily]
      cases a with
      | v4 a => exact .inl rfl
      | v6 a => exact .inr rfl
    · rw [hbody, haddrslen, List.length_flatMap, List.map_map]
      congr 1
      apply List.map_congr_left
      intro a _
      exact (congrArg addressLen (familyOf_addressFamily a)).trans (length_addressBytes a).symm

end

/-- A reply with one address of four octets and the family of sixteen. -/
def mixedUpReply : Bytes :=
  @writeNe littleEndian [version, 1, 1, 4, 2, 0] ++ [127, 0, 0, 1, 10, 97, 0]

/-- It is accepted, and a client would read on into the name. -/
theorem accepts_mixed_up_reply :
    @validHostReply littleEndian .getAi mixedUpReply = true ∧
    @readNe littleEndian mixedUpReply 4 = 1 ∧ ¬ @AiWellFormed littleEndian mixedUpReply ∧
    walk ((@aiBody littleEndian mixedUpReply).families.map familyOf)
      (@aiBody littleEndian mixedUpReply).packed = none := by
  refine ⟨by decide, by decide, ?_, by decide⟩
  intro hwell
  have hsizes := @AiWellFormed.sizes littleEndian _ hwell
  revert hsizes
  decide

theorem accepted_ai_wellFormed_dualStack :
    @AiWellFormed littleEndian (@encodeAi littleEndian dualStack [97, 0] 0) :=
  (@accepted_ai_wellFormed_iff littleEndian _ (by decide) (by decide)).1.mpr
    ⟨dualStack, [97, 0], 0, rfl⟩

end Deezns.Nscd
