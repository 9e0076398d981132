import Deezns.Octets

/-!
# UTF-8 on byte lists

Text is a list of Unicode scalar values and its encoding is the concatenation
of the encodings of its characters. Decoding is strict or lossy: the strict
decoder accepts exactly the encodings, the lossy one puts one replacement
character for every maximal prefix of a sequence that cannot be completed.
-/
namespace Utf8

open Octets (Bytes)

abbrev Str := List Char

def encode (s : Str) : Bytes := s.flatMap String.utf8EncodeChar

/-- The character at the front of a byte string, if it starts with one. -/
def decodeFirst (bs : Bytes) : Option Char := bs.toByteArray.utf8DecodeChar? 0

@[simp] theorem encode_nil : encode [] = [] := rfl
@[simp] theorem encode_cons (c : Char) (s : Str) :
    encode (c :: s) = String.utf8EncodeChar c ++ encode s := rfl

theorem encode_append (s t : Str) : encode (s ++ t) = encode s ++ encode t :=
  List.flatMap_append

theorem utf8EncodeChar_ne_nil (c : Char) : String.utf8EncodeChar c ≠ [] := by
  intro h
  have hlen := String.length_utf8EncodeChar c
  have hpos := c.utf8Size_pos
  rw [h] at hlen
  simp at hlen
  omega

theorem decodeFirst_append (c : Char) (bs : Bytes) :
    decodeFirst (String.utf8EncodeChar c ++ bs) = some c := by
  rw [decodeFirst, List.toByteArray_append]
  exact ByteArray.utf8DecodeChar?_utf8EncodeChar_append

theorem eq_append_of_decodeFirst {bs : Bytes} {c : Char} (h : decodeFirst bs = some c) :
    bs = String.utf8EncodeChar c ++ bs.drop c.utf8Size := by
  obtain ⟨rest, hrest⟩ := ByteArray.exists_of_utf8DecodeChar?_eq_some h
  have hl : bs = String.utf8EncodeChar c ++ rest.data.toList := by
    have := congrArg (fun b => b.data.toList) hrest
    simpa using this
  have hdrop : bs.drop c.utf8Size = rest.data.toList := by
    rw [hl, ← String.length_utf8EncodeChar c, List.drop_left]
  rw [hdrop]
  exact hl

/-- The strict decoder, with the length of its input as fuel. -/
def decodeFuel : Nat → Bytes → Option Str
  | _, [] => some []
  | 0, _ :: _ => none
  | fuel + 1, b :: bs =>
    match decodeFirst (b :: bs) with
    | some c => (decodeFuel fuel ((b :: bs).drop c.utf8Size)).map (c :: ·)
    | none => none

/-- `str::from_utf8`. -/
def decode (bs : Bytes) : Option Str := decodeFuel bs.length bs

theorem decodeFuel_append (fuel : Nat) (c : Char) (bs : Bytes) :
    decodeFuel (fuel + 1) (String.utf8EncodeChar c ++ bs) = (decodeFuel fuel bs).map (c :: ·) := by
  obtain ⟨b, tail, hb⟩ := List.exists_cons_of_ne_nil (utf8EncodeChar_ne_nil c)
  have hfirst := decodeFirst_append c bs
  have hdrop : (String.utf8EncodeChar c ++ bs).drop c.utf8Size = bs := by
    rw [← String.length_utf8EncodeChar c, List.drop_left]
  rw [hb, List.cons_append] at hfirst hdrop ⊢
  rw [decodeFuel, hfirst]
  simp only [hdrop]

theorem decodeFuel_encode (s : Str) (fuel : Nat) (h : (encode s).length ≤ fuel) :
    decodeFuel fuel (encode s) = some s := by
  induction s generalizing fuel with
  | nil => cases fuel <;> rfl
  | cons c s ih =>
    have hpos := c.utf8Size_pos
    rw [encode_cons, List.length_append, String.length_utf8EncodeChar] at h
    cases fuel with
    | zero => omega
    | succ fuel =>
      rw [encode_cons, decodeFuel_append, ih fuel (by omega)]
      rfl

/-- What is decoded starts with a character, and goes on behind its bytes. -/
theorem decodeFuel_succ_cases {fuel : Nat} {b : UInt8} {bs : Bytes} {s : Str}
    (h : decodeFuel (fuel + 1) (b :: bs) = some s) :
    ∃ c t, decodeFirst (b :: bs) = some c ∧
      decodeFuel fuel ((b :: bs).drop c.utf8Size) = some t ∧ s = c :: t := by
  cases hc : decodeFirst (b :: bs) with
  | none => simp [decodeFuel, hc] at h
  | some c =>
    simp only [decodeFuel, hc, Option.map_eq_some_iff] at h
    obtain ⟨t, ht, rfl⟩ := h
    exact ⟨c, t, rfl, ht, rfl⟩

theorem eq_encode_of_decodeFuel (fuel : Nat) (bs : Bytes) (s : Str)
    (h : decodeFuel fuel bs = some s) : bs = encode s := by
  induction fuel generalizing bs s with
  | zero => cases bs <;> simp_all [decodeFuel]
  | succ fuel ih =>
    cases bs with
    | nil => simp [(Option.some.inj h).symm]
    | cons b bs =>
      obtain ⟨c, t, hc, ht, rfl⟩ := decodeFuel_succ_cases h
      rw [encode_cons, ← ih _ _ ht]
      exact eq_append_of_decodeFirst hc

/-- The strict decoder accepts exactly the encodings. -/
theorem decode_eq_some_iff (bs : Bytes) (s : Str) : decode bs = some s ↔ bs = encode s := by
  constructor
  · exact eq_encode_of_decodeFuel _ _ _
  · rintro rfl
    exact decodeFuel_encode s _ le_rfl

@[simp] theorem decode_encode (s : Str) : decode (encode s) = some s :=
  (decode_eq_some_iff _ _).mpr rfl

def isContinuation (b : UInt8) : Bool := 0x80 ≤ b && b ≤ 0xBF

/-- Whether the second byte fits the lead byte of a three- or four-byte sequence. -/
def mayFollow (lead b : UInt8) : Bool :=
  (lead == 0xE0 && 0xA0 ≤ b && b ≤ 0xBF) ||
  (0xE1 ≤ lead && lead ≤ 0xEC && isContinuation b) ||
  (lead == 0xED && 0x80 ≤ b && b ≤ 0x9F) ||
  (0xEE ≤ lead && lead ≤ 0xEF && isContinuation b) ||
  (lead == 0xF0 && 0x90 ≤ b && b ≤ 0xBF) ||
  (0xF1 ≤ lead && lead ≤ 0xF3 && isContinuation b) ||
  (lead == 0xF4 && 0x80 ≤ b && b ≤ 0x8F)

/-- How many bytes one replacement character stands for, where no character
starts: the lead byte and the continuation bytes that still fitted it. -/
def invalidLength : Bytes → Nat
  | lead :: second :: rest =>
    if mayFollow lead second then
      match rest with
      | third :: _ => if isContinuation third then 3 else 2
      | [] => 2
    else 1
  | _ => 1

def decodeLossyFuel : Nat → Bytes → Str
  | _, [] => []
  | 0, _ :: _ => []
  | fuel + 1, b :: bs =>
    match decodeFirst (b :: bs) with
    | some c => c :: decodeLossyFuel fuel ((b :: bs).drop c.utf8Size)
    | none => '\uFFFD' :: decodeLossyFuel fuel ((b :: bs).drop (invalidLength (b :: bs)))

/-- `String::from_utf8_lossy`. -/
def decodeLossy (bs : Bytes) : Str := decodeLossyFuel bs.length bs

/-- Valid text is its own lossy decoding. -/
theorem decodeLossyFuel_of_decodeFuel (fuel : Nat) (bs : Bytes) (s : Str)
    (h : decodeFuel fuel bs = some s) : decodeLossyFuel fuel bs = s := by
  induction fuel generalizing bs s with
  | zero => cases bs <;> simp_all [decodeFuel, decodeLossyFuel]
  | succ fuel ih =>
    cases bs with
    | nil => exact Option.some.inj h
    | cons b bs =>
      obtain ⟨c, t, hc, ht, rfl⟩ := decodeFuel_succ_cases h
      simp only [decodeLossyFuel, hc, ih _ _ ht]

@[simp] theorem decodeLossy_encode (s : Str) : decodeLossy (encode s) = s :=
  decodeLossyFuel_of_decodeFuel _ _ _ (decode_encode s)

theorem decodeLossy_ne_nil {bs : Bytes} (h : bs ≠ []) : decodeLossy bs ≠ [] := by
  obtain ⟨b, bs, rfl⟩ := List.exists_cons_of_ne_nil h
  rw [decodeLossy, List.length_cons, decodeLossyFuel]
  split <;> exact List.cons_ne_nil _ _

/-- A character of a lossy decoding is the replacement, or stands in the bytes. -/
theorem mem_decodeLossyFuel (fuel : Nat) (bs : Bytes) (c : Char)
    (h : c ∈ decodeLossyFuel fuel bs) :
    c = '\uFFFD' ∨ ∀ b ∈ String.utf8EncodeChar c, b ∈ bs := by
  induction fuel generalizing bs with
  | zero => cases bs <;> simp [decodeLossyFuel] at h
  | succ fuel ih =>
    cases bs with
    | nil => simp [decodeLossyFuel] at h
    | cons b bs =>
      have hrest : ∀ n, c ∈ decodeLossyFuel fuel ((b :: bs).drop n) →
          c = '\uFFFD' ∨ ∀ b' ∈ String.utf8EncodeChar c, b' ∈ b :: bs := by
        intro n hmem
        exact (ih _ hmem).imp id (fun hall b' hb' => List.mem_of_mem_drop (hall b' hb'))
      rw [decodeLossyFuel] at h
      split at h
      · next first hfirst =>
        rcases List.mem_cons.mp h with rfl | hmem
        · right
          intro b' hb'
          rw [eq_append_of_decodeFirst hfirst]
          exact List.mem_append_left _ hb'
        · exact hrest _ hmem
      · rcases List.mem_cons.mp h with rfl | hmem
        · exact .inl rfl
        · exact hrest _ hmem

theorem utf8EncodeChar_of_ascii {c : Char} (h : c.toNat < 128) :
    String.utf8EncodeChar c = [UInt8.ofNat c.toNat] := by
  have hval : c.val.toNat = c.toNat := rfl
  unfold String.utf8EncodeChar
  simp only [hval]
  rw [if_pos (by omega)]

/-- Outside ASCII all bytes of a character have their highest bit set. -/
theorem le_of_mem_utf8EncodeChar {c : Char} (h : 128 ≤ c.toNat) {b : UInt8}
    (hb : b ∈ String.utf8EncodeChar c) : 128 ≤ b.toNat := by
  have hval : c.val.toNat = c.toNat := rfl
  unfold String.utf8EncodeChar at hb
  simp only [hval] at hb
  split at hb
  · omega
  split at hb
  · simp only [List.mem_cons, List.not_mem_nil, or_false] at hb
    rcases hb with rfl | rfl <;> simp <;> omega
  split at hb
  · simp only [List.mem_cons, List.not_mem_nil, or_false] at hb
    rcases hb with rfl | rfl | rfl <;> simp <;> omega
  · simp only [List.mem_cons, List.not_mem_nil, or_false] at hb
    rcases hb with rfl | rfl | rfl | rfl <;> simp <;> omega

/-- An ASCII character is a byte of its own. -/
theorem ascii_mem_encode_iff {c : Char} (h : c.toNat < 128) (s : Str) :
    UInt8.ofNat c.toNat ∈ encode s ↔ c ∈ s := by
  induction s with
  | nil => simp
  | cons d s ih =>
    rw [encode_cons, List.mem_append, List.mem_cons, ih]
    refine or_congr_left ?_
    by_cases hd : d.toNat < 128
    · rw [utf8EncodeChar_of_ascii hd, List.mem_singleton]
      constructor
      · intro heq
        have hnat := congrArg UInt8.toNat heq
        rw [UInt8.toNat_ofNat', UInt8.toNat_ofNat', Nat.mod_eq_of_lt (by omega),
          Nat.mod_eq_of_lt (by omega)] at hnat
        exact Char.toNat_inj.mp hnat
      · rintro rfl
        rfl
    · constructor
      · intro hmem
        have hle := le_of_mem_utf8EncodeChar (by omega) hmem
        rw [UInt8.toNat_ofNat', Nat.mod_eq_of_lt (by omega)] at hle
        omega
      · rintro rfl
        exact absurd h hd

example : decodeLossy [0x61, 0xE2, 0x82, 0x62, 0xFF] = ['a', '\uFFFD', 'b', '\uFFFD'] := by
  decide

end Utf8
