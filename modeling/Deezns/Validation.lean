import Deezns.AiReplies
import Deezns.HostReplies

/-!
# Encoders and the check

The replies the daemon makes pass the check that is made of the real nscd's,
and nothing that is cut off them does. The check itself computes with what it
reads in 64 bits, and never more than fits.
-/
namespace Deezns.Nscd

open Octets (Bytes NativeEndian readNe writeNe fromNeBytes)
open Utf8 (Str)
open Text

/-- The result of an `i64` operation: out of the range it is an overflow. -/
def i64 (v : Int) : Option Int := if -2 ^ 63 ≤ v ∧ v < 2 ^ 63 then some v else none

/-- `as i64` of a length. -/
def asI64 (n : Nat) : Int := (Int64.ofNat n).toInt

/-- `slice::get` with a range. -/
def get (bytes : Bytes) (start stop : Nat) : Option Bytes :=
  if start ≤ stop ∧ stop ≤ bytes.length then some ((bytes.drop start).take (stop - start)) else none

theorem i64_eq_some {v : Int} (hlo : -2 ^ 63 ≤ v) (hhi : v < 2 ^ 63) : i64 v = some v :=
  if_pos ⟨hlo, hhi⟩

theorem asI64_of_lt {n : Nat} (h : n < 2 ^ 63) : asI64 n = n := by
  rw [asI64, Int64.toInt_ofNat_of_lt h]

section
variable [NativeEndian]

/-- The check, step by step: nothing where it would panic or overflow. -/
def checkedIntAt (reply : Bytes) (pos : Nat) : Option (Option Int) :=
  match get reply pos (pos + 4) with
  | none => some none
  -- `try_into().unwrap()`
  | some b => if b.length = 4 then some (some (fromNeBytes b).toInt) else none

def checkedAiBody (reply : Bytes) (len : Int) : Option Bool := do
  let naddrs ← checkedIntAt reply 8
  let addrslen ← checkedIntAt reply 12
  let canonlen ← checkedIntAt reply 16
  match naddrs, addrslen, canonlen with
  | some naddrs, some addrslen, some canonlen =>
    if 0 ≤ naddrs ∧ 0 ≤ addrslen ∧ 0 ≤ canonlen then do
      let total ← i64 (aiHeaderLen + naddrs)
      let total ← i64 (total + addrslen)
      let total ← i64 (total + canonlen)
      return decide (len = total)
    else return false
  | _, _, _ => return false

def checkedHstBody (reply : Bytes) (len : Int) : Option Bool := do
  let nameLen ← checkedIntAt reply 8
  let aliasesCnt ← checkedIntAt reply 12
  let length ← checkedIntAt reply 20
  let addrCnt ← checkedIntAt reply 24
  match nameLen, aliasesCnt, length, addrCnt with
  | some nameLen, some aliasesCnt, some length, some addrCnt =>
    if 0 ≤ nameLen ∧ 0 ≤ aliasesCnt ∧ 0 ≤ addrCnt ∧ (length = 4 ∨ length = 16) then do
      let total ← i64 (hstHeaderLen + nameLen)
      let aliases ← i64 (aliasesCnt * 4)
      let total ← i64 (total + aliases)
      let addrs ← i64 (addrCnt * length)
      let total ← i64 (total + addrs)
      return decide (total ≤ len)
    else return false
  | _, _, _, _ => return false

def checkedHostReply (ty : RequestType) (reply : Bytes) : Option Bool := do
  let ver ← checkedIntAt reply 0
  let found ← checkedIntAt reply 4
  match ver, found with
  | some ver, some found =>
    if ver ≠ version.toInt then return false
    else
      let len := asI64 reply.length
      match ty with
      | .getAi =>
        if len < aiHeaderLen then return false
        else if found = 0 then return true
        else if found = 1 then checkedAiBody reply len
        else return false
      | _ =>
        if len < hstHeaderLen then return false
        else if found = 0 then return true
        else if found = 1 then checkedHstBody reply len
        else return false
  | _, _ => return false

/-- No reply is read outside its bounds. -/
theorem checkedIntAt_eq (reply : Bytes) (pos : Nat) :
    checkedIntAt reply pos = some (intAt reply pos) := by
  unfold checkedIntAt get intAt
  by_cases h : pos + 4 ≤ reply.length
  · have hlen : ((reply.drop pos).take (pos + 4 - pos)).length = 4 := by
      rw [List.length_take, List.length_drop]
      omega
    rw [if_pos ⟨Nat.le_add_right _ _, h⟩, if_pos h]
    simp only [hlen, if_true]
    rw [Nat.add_sub_cancel_left]
    rfl
  · rw [if_neg (fun hand => h hand.2), if_neg h]

/-- What is read has 32 bits. -/
theorem intAt_bounds {reply : Bytes} {pos : Nat} {v : Int} (h : intAt reply pos = some v) :
    -2 ^ 31 ≤ v ∧ v < 2 ^ 31 := by
  obtain ⟨_, heq⟩ := Option.ite_none_right_eq_some.mp h
  cases heq
  exact ⟨Int32.le_toInt _, Int32.toInt_lt _⟩

theorem checkedAiBody_eq (reply : Bytes) (len : Int) :
    checkedAiBody reply len = some
      (match intAt reply 8, intAt reply 12, intAt reply 16 with
      | some naddrs, some addrslen, some canonlen =>
        0 ≤ naddrs && 0 ≤ addrslen && 0 ≤ canonlen &&
          len = aiHeaderLen + naddrs + addrslen + canonlen
      | _, _, _ => false) := by
  simp only [checkedAiBody, checkedIntAt_eq, Option.bind_eq_bind, Option.bind_some]
  cases hnaddrs : intAt reply 8 with
  | none => rfl
  | some naddrs =>
    cases haddrslen : intAt reply 12 with
    | none => rfl
    | some addrslen =>
      cases hcanonlen : intAt reply 16 with
      | none => rfl
      | some canonlen =>
        have hnaddrs := intAt_bounds hnaddrs
        have haddrslen := intAt_bounds haddrslen
        have hcanonlen := intAt_bounds hcanonlen
        by_cases hpos : 0 ≤ naddrs ∧ 0 ≤ addrslen ∧ 0 ≤ canonlen
        · have hheader : (aiHeaderLen : Int) = 24 := rfl
          simp only [if_pos hpos, hheader]
          rw [i64_eq_some (by omega) (by omega), Option.bind_some,
            i64_eq_some (by omega) (by omega), Option.bind_some,
            i64_eq_some (by omega) (by omega), Option.bind_some]
          simp [hpos]
        · have hfalse : (decide (0 ≤ naddrs) && decide (0 ≤ addrslen) &&
              decide (0 ≤ canonlen)) = false := by
            rw [Bool.eq_false_iff]
            simpa only [ne_eq, Bool.and_eq_true, decide_eq_true_eq, and_assoc] using hpos
          simp only [if_neg hpos, hfalse, Bool.false_and]
          rfl

theorem checkedHstBody_eq (reply : Bytes) (len : Int) :
    checkedHstBody reply len = some
      (match intAt reply 8, intAt reply 12, intAt reply 20, intAt reply 24 with
      | some nameLen, some aliasesCnt, some length, some addrCnt =>
        0 ≤ nameLen && 0 ≤ aliasesCnt && 0 ≤ addrCnt && (length = 4 || length = 16) &&
          hstHeaderLen + nameLen + aliasesCnt * 4 + addrCnt * length ≤ len
      | _, _, _, _ => false) := by
  simp only [checkedHstBody, checkedIntAt_eq, Option.bind_eq_bind, Option.bind_some]
  cases hnameLen : intAt reply 8 with
  | none => rfl
  | some nameLen =>
    cases haliasesCnt : intAt reply 12 with
    | none => rfl
    | some aliasesCnt =>
      cases hlength : intAt reply 20 with
      | none => rfl
      | some length =>
        cases haddrCnt : intAt reply 24 with
        | none => rfl
        | some addrCnt =>
          have hnameLen := intAt_bounds hnameLen
          have haliasesCnt := intAt_bounds haliasesCnt
          have haddrCnt := intAt_bounds haddrCnt
          by_cases hpos : 0 ≤ nameLen ∧ 0 ≤ aliasesCnt ∧ 0 ≤ addrCnt ∧ (length = 4 ∨ length = 16)
          · have hheader : (hstHeaderLen : Int) = 32 := rfl
            have haddrs : 0 ≤ addrCnt * length ∧ addrCnt * length ≤ addrCnt * 16 := by
              rcases hpos.2.2.2 with rfl | rfl <;> omega
            simp only [if_pos hpos, hheader]
            rw [i64_eq_some (by omega) (by omega), Option.bind_some,
              i64_eq_some (by omega) (by omega), Option.bind_some,
              i64_eq_some (by omega) (by omega), Option.bind_some,
              i64_eq_some (by omega) (by omega), Option.bind_some,
              i64_eq_some (by omega) (by omega), Option.bind_some]
            simp [hpos]
          · have hfalse : (decide (0 ≤ nameLen) && decide (0 ≤ aliasesCnt) &&
                decide (0 ≤ addrCnt) && (decide (length = 4) || decide (length = 16))) = false := by
              rw [Bool.eq_false_iff]
              simpa only [ne_eq, Bool.and_eq_true, Bool.or_eq_true, decide_eq_true_eq,
                and_assoc] using hpos
            simp only [if_neg hpos, hfalse, Bool.false_and]
            rfl

/-- Nothing overflows, and nothing is read that is not there. -/
theorem isSome_checkedHostReply (ty : RequestType) (reply : Bytes) :
    (checkedHostReply ty reply).isSome = true := by
  simp only [checkedHostReply, checkedIntAt_eq, Option.bind_eq_bind, Option.bind_some,
    checkedAiBody_eq, checkedHstBody_eq]
  split
  · split
    · rfl
    · split
      · split_ifs <;> rfl
      · split_ifs <;> rfl
  · rfl

theorem checkedHostReply_of_ne_getAi {ty : RequestType} (h : ty ≠ .getAi) (reply : Bytes) :
    checkedHostReply ty reply = checkedHostReply .getHostByName reply := by
  cases ty <;> first | rfl | exact absurd rfl h

theorem validHostReply_of_ne_getAi {ty : RequestType} (h : ty ≠ .getAi) (reply : Bytes) :
    validHostReply ty reply = validHostReply .getHostByName reply := by
  cases ty <;> first | rfl | exact absurd rfl h

/-- The check is what is computed, for as many bytes as a slice can have. -/
theorem checkedHostReply_eq (ty : RequestType) {reply : Bytes} (h : reply.length < 2 ^ 63) :
    checkedHostReply ty reply = some (validHostReply ty reply) := by
  by_cases hty : ty = .getAi
  · subst hty
    simp only [checkedHostReply, checkedIntAt_eq, Option.bind_eq_bind, Option.bind_some,
      checkedAiBody_eq, asI64_of_lt h, validHostReply]
    cases intAt reply 0 with
    | none => rfl
    | some ver =>
      cases intAt reply 4 with
      | none => rfl
      | some found =>
        dsimp only
        split_ifs <;> rfl
  · rw [checkedHostReply_of_ne_getAi hty, validHostReply_of_ne_getAi hty]
    simp only [checkedHostReply, checkedIntAt_eq, Option.bind_eq_bind, Option.bind_some,
      checkedHstBody_eq, asI64_of_lt h, validHostReply]
    cases intAt reply 0 with
    | none => rfl
    | some ver =>
      cases intAt reply 4 with
      | none => rfl
      | some found =>
        dsimp only
        split_ifs <;> rfl

/-- A positive `GETAI` reply is accepted at its full length only. -/
theorem validHostReply_ai_front_iff {naddrs addrslen canonlen error : Int32} {body p : Bytes}
    (hnaddrs : 0 ≤ naddrs.toInt) (haddrslen : 0 ≤ addrslen.toInt) (hcanonlen : 0 ≤ canonlen.toInt)
    (hlen : (body.length : Int) = naddrs.toInt + addrslen.toInt + canonlen.toInt)
    (hp : p <+: writeNe [version, 1, naddrs, addrslen, canonlen, error] ++ body) :
    validHostReply .getAi p = true ↔
      (writeNe [version, 1, naddrs, addrslen, canonlen, error] ++ body).length ≤ p.length := by
  have hheader : (writeNe [version, 1, naddrs, addrslen, canonlen, error]).length =
      aiHeaderLen := by
    simp [aiHeaderLen]
  by_cases hshort : p.length < aiHeaderLen
  · rw [validHostReply_short_ai hshort, List.length_append, hheader]
    constructor
    · intro h
      cases h
    · intro hle
      omega
  · obtain ⟨front, rfl⟩ : writeNe [version, 1, naddrs, addrslen, canonlen, error] <+: p := by
      apply List.prefix_of_prefix_length_le (List.prefix_append _ _) hp
      omega
    have hle := (List.prefix_append_right_inj _).mp hp |>.length_le
    rw [validHostReply_ai_iff, List.length_append, List.length_append]
    constructor
    · rintro ⟨_, hzero | ⟨_, _, _, _, hfront⟩⟩
      · cases hzero
      · omega
    · intro hall
      exact ⟨rfl, .inr ⟨rfl, hnaddrs, haddrslen, hcanonlen, by omega⟩⟩

theorem aiFound_tellsWhole (name : Str) (addrs : List IpAddr)
    (hsize : (aiFound name addrs).length < 2 ^ 31) :
    TellsWhole (validHostReply .getAi) (aiFound name addrs) := by
  rw [aiFound_eq] at hsize ⊢
  rw [length_encodeAi] at hsize
  have hnaddrs := Int32.toInt_ofNat_of_lt (show addrs.length < 2 ^ 31 by omega)
  have haddrslen := Int32.toInt_ofNat_of_lt
    (show (addrs.flatMap addressBytes).length < 2 ^ 31 by omega)
  have hcanonlen := Int32.toInt_ofNat_of_lt
    (show (Utf8.encode name ++ [0]).length < 2 ^ 31 by omega)
  refine (tellsWhole_iff le_rfl (fun p hp => validHostReply_ai_front_iff ?_ ?_ ?_ ?_ hp)).mpr rfl
  · rw [hnaddrs]
    exact Int.natCast_nonneg _
  · rw [haddrslen]
    exact Int.natCast_nonneg _
  · rw [hcanonlen]
    exact Int.natCast_nonneg _
  · rw [hnaddrs, haddrslen, hcanonlen]
    simp only [List.length_append, List.length_map]
    omega

/-- A reply of the daemon's own is a host without aliases. -/
theorem exists_hostent {family : Int32} {addrs : List IpAddr} (name : Str)
    (hfamily : ∀ a ∈ addrs, addressFamily a = family)
    (hsize : (hstReply 1 0 name family addrs).length < 2 ^ 31) :
    ∃ host : Hostent, host.aliases = [] ∧
      (HostReply.found host).encode = hstReply 1 0 name family addrs := by
  have hle := length_le_length_packed addrs
  rw [hstReply_eq] at hsize ⊢
  simp only [List.length_append] at hsize
  refine ⟨⟨Utf8.encode name ++ [0], [], family, addressLen family, addrs.map addressBytes, 0,
    addressLen_cases family, ?_, ?_, by decide, by simp, ?_⟩, rfl, ?_⟩
  · intro octets hoctets
    obtain ⟨a, ha, rfl⟩ := List.mem_map.mp hoctets
    rw [length_addressBytes, hfamily a ha]
    rfl
  · rw [List.length_append]
    omega
  · rw [List.length_map]
    omega
  · simp [HostReply.encode, Hostent.header, Hostent.body, List.flatMap_def, writeNe]

theorem found_tellsWhole (ty : RequestType) (name : Str) (addrs : List IpAddr)
    (hsize : (found ty name addrs).length < 2 ^ 31) :
    TellsWhole (validHostReply ty) (found ty name addrs) := by
  by_cases hty : ty = .getAi
  · subst hty
    exact aiFound_tellsWhole name addrs hsize
  · obtain ⟨family, hfound⟩ := found_of_ne_getAi hty name addrs
    rw [hfound, hstFound_getD] at hsize ⊢
    split
    · exact ((HostReply.notFound noData).tellsWhole_iff hty).mpr rfl
    · next hsome =>
      rw [if_neg hsome] at hsize
      obtain ⟨host, haliases, hencode⟩ := exists_hostent name
        (fun a ha => eq_of_beq (List.mem_filter.mp ha).2) hsize
      rw [← hencode, HostReply.tellsWhole_iff hty, HostReply.aliases, haliases]
      rfl

theorem notFound_tellsWhole (ty : RequestType) (error : Int32) :
    TellsWhole (validHostReply ty) (notFound ty error) := by
  by_cases hty : ty = .getAi
  · subst hty
    have hlen : (aiNotFound error).length = aiHeaderLen := by
      simp [aiNotFound, aiReply, aiHeaderLen]
    refine ⟨validHostReply_notFound .getAi error, ?_⟩
    intro p hp hne
    apply validHostReply_short_ai
    rw [← hlen]
    exact lt_of_not_ge (fun hle => hne (hp.eq_of_length_le hle))
  · rw [notFound_of_ne_getAi hty]
    exact ((HostReply.notFound error).tellsWhole_iff hty).mpr rfl

/-- The encoders and the check agree on every reply and every cut of it, and the
check is computed without overflow. -/
theorem encoders_and_check_agree :
    (∀ (ty : RequestType) (name : Str) (addrs : List IpAddr),
      (found ty name addrs).length < 2 ^ 31 →
        TellsWhole (validHostReply ty) (found ty name addrs)) ∧
    (∀ (ty : RequestType) (error : Int32), TellsWhole (validHostReply ty) (notFound ty error)) ∧
    ∀ (ty : RequestType) (reply : Bytes), (checkedHostReply ty reply).isSome = true ∧
      (reply.length < 2 ^ 63 → checkedHostReply ty reply = some (validHostReply ty reply)) :=
  ⟨found_tellsWhole, notFound_tellsWhole,
    fun ty reply => ⟨isSome_checkedHostReply ty reply, checkedHostReply_eq ty⟩⟩

end

theorem encoders_and_check_agree_dualStack :
    TellsWhole (@validHostReply littleEndian .getAi)
      (@found littleEndian .getAi ['a'] dualStack) ∧
    @checkedHostReply littleEndian .getAi (@found littleEndian .getAi ['a'] dualStack) =
      some (@validHostReply littleEndian .getAi (@found littleEndian .getAi ['a'] dualStack)) := by
  obtain ⟨hfound, _, hchecked⟩ := @encoders_and_check_agree littleEndian
  exact ⟨hfound .getAi ['a'] dualStack (by decide), (hchecked .getAi _).2 (by decide)⟩

end Deezns.Nscd
