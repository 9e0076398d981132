import Mathlib.Data.List.Basic
import Mathlib.Tactic.Ring

/-!
# Byte strings and fixed-width integers

A natural number is written as exactly `width` base-256 digits, and any byte
string is read back as a natural number. The round trip is exact modulo
`256 ^ width` in one direction and unconditional in the other. Big-endian and
native-endian integers are the same digits in another order.
-/
namespace Octets

abbrev Bytes := List UInt8

/-- The `width` base-256 digits of `n`, least significant first. -/
def digits : Nat → Nat → Bytes
  | 0, _ => []
  | width + 1, n => UInt8.ofNat n :: digits width (n / 256)

/-- The number whose base-256 digits are given, least significant first. -/
def value : Bytes → Nat
  | [] => 0
  | b :: bs => b.toNat + 256 * value bs

@[simp] theorem digits_zero (n : Nat) : digits 0 n = [] := rfl
theorem digits_succ (width n : Nat) :
    digits (width + 1) n = UInt8.ofNat n :: digits width (n / 256) := rfl
@[simp] theorem value_nil : value [] = 0 := rfl
@[simp] theorem value_cons (b : UInt8) (bs : Bytes) :
    value (b :: bs) = b.toNat + 256 * value bs := rfl

@[simp] theorem length_digits (width n : Nat) : (digits width n).length = width := by
  induction width generalizing n with
  | zero => rfl
  | succ width ih => simp [digits_succ, ih]

theorem value_digits (width n : Nat) : value (digits width n) = n % 256 ^ width := by
  induction width generalizing n with
  | zero => simp [Nat.mod_one]
  | succ width ih =>
    have hb : (UInt8.ofNat n).toNat = n % 256 := by simp
    rw [digits_succ, value_cons, ih, hb, pow_succ', Nat.mod_mul]

theorem value_lt (bs : Bytes) : value bs < 256 ^ bs.length := by
  induction bs with
  | nil => simp
  | cons b bs ih =>
    have hb : b.toNat < 256 := b.toNat_lt
    rw [value_cons, List.length_cons, pow_succ]
    omega

theorem digits_value (bs : Bytes) : digits bs.length (value bs) = bs := by
  induction bs with
  | nil => rfl
  | cons b bs ih =>
    have hb : b.toNat < 256 := b.toNat_lt
    have hdiv : (b.toNat + 256 * value bs) / 256 = value bs := by omega
    have hhead : UInt8.ofNat (b.toNat + 256 * value bs) = b := by
      apply UInt8.toNat_inj.mp
      simp only [UInt8.toNat_ofNat']
      omega
    rw [List.length_cons, digits_succ, value_cons, hdiv, ih, hhead]

/-- Most significant byte first: `to_be_bytes` of an integer of `width` bytes. -/
def toBeBytes (width n : Nat) : Bytes := (digits width n).reverse

def fromBeBytes (bs : Bytes) : Nat := value bs.reverse

@[simp] theorem length_toBeBytes (width n : Nat) : (toBeBytes width n).length = width := by
  simp [toBeBytes]

theorem fromBeBytes_toBeBytes (width n : Nat) :
    fromBeBytes (toBeBytes width n) = n % 256 ^ width := by
  simp [fromBeBytes, toBeBytes, value_digits]

theorem toBeBytes_fromBeBytes (bs : Bytes) : toBeBytes bs.length (fromBeBytes bs) = bs := by
  have h := digits_value bs.reverse
  rw [List.length_reverse] at h
  rw [toBeBytes, fromBeBytes, h, List.reverse_reverse]

theorem fromBeBytes_lt (bs : Bytes) : fromBeBytes bs < 256 ^ bs.length := by
  have h := value_lt bs.reverse
  rwa [List.length_reverse] at h

/-- The byte order of the machine, which a native-endian protocol depends on. -/
inductive Endian where
  | little | big
  deriving DecidableEq, Repr

def Endian.order : Endian → Bytes → Bytes
  | .little, bs => bs
  | .big, bs => bs.reverse

@[simp] theorem Endian.order_order (e : Endian) (bs : Bytes) : e.order (e.order bs) = bs := by
  cases e <;> simp [Endian.order]
@[simp] theorem Endian.length_order (e : Endian) (bs : Bytes) :
    (e.order bs).length = bs.length := by
  cases e <;> simp [Endian.order]

class NativeEndian where
  endian : Endian

section
variable [NativeEndian]

/-- `i32::to_ne_bytes`. -/
def toNeBytes (v : Int32) : Bytes := NativeEndian.endian.order (digits 4 v.toUInt32.toNat)

/-- `i32::from_ne_bytes`. -/
def fromNeBytes (bs : Bytes) : Int32 :=
  (UInt32.ofNat (value (NativeEndian.endian.order bs))).toInt32

@[simp] theorem length_toNeBytes (v : Int32) : (toNeBytes v).length = 4 := by simp [toNeBytes]

@[simp] theorem fromNeBytes_toNeBytes (v : Int32) : fromNeBytes (toNeBytes v) = v := by
  have h : v.toUInt32.toNat % 256 ^ 4 = v.toUInt32.toNat :=
    Nat.mod_eq_of_lt (by simpa using v.toUInt32.toNat_lt)
  rw [fromNeBytes, toNeBytes, Endian.order_order, value_digits, h, UInt32.ofNat_toNat]
  rfl

theorem toNeBytes_fromNeBytes (bs : Bytes) (h : bs.length = 4) :
    toNeBytes (fromNeBytes bs) = bs := by
  have hlt := value_lt (NativeEndian.endian.order bs)
  rw [Endian.length_order, h] at hlt
  have hval : (UInt32.ofNat (value (NativeEndian.endian.order bs))).toNat =
      value (NativeEndian.endian.order bs) := by
    rw [UInt32.toNat_ofNat']
    exact Nat.mod_eq_of_lt (by simpa using hlt)
  have hdig := digits_value (NativeEndian.endian.order bs)
  rw [Endian.length_order, h] at hdig
  have hword : (fromNeBytes bs).toUInt32 =
      UInt32.ofNat (value (NativeEndian.endian.order bs)) := rfl
  rw [toNeBytes, hword, hval, hdig, Endian.order_order]

/-- The integer that stands at an offset. -/
def readNe (bs : Bytes) (pos : Nat) : Int32 := fromNeBytes ((bs.drop pos).take 4)

theorem readNe_append {bs : Bytes} {pos : Nat} (h : pos + 4 ≤ bs.length) (rest : Bytes) :
    readNe (bs ++ rest) pos = readNe bs pos := by
  rw [readNe, readNe, List.drop_append_of_le_length (by omega),
    List.take_append_of_le_length (by rw [List.length_drop]; omega)]

def writeNe (words : List Int32) : Bytes := words.flatMap toNeBytes

@[simp] theorem length_writeNe (words : List Int32) :
    (writeNe words).length = 4 * words.length := by
  simp [writeNe, List.length_flatMap, Nat.mul_comm]

/-- Integers written in a row are read back at their offsets, whatever follows. -/
theorem readNe_writeNe (words : List Int32) (rest : Bytes) (i : Nat) (h : i < words.length) :
    readNe (writeNe words ++ rest) (4 * i) = words[i] := by
  induction words generalizing i with
  | nil => exact absurd h (Nat.not_lt_zero i)
  | cons w words ih =>
    have hlen := length_toNeBytes w
    have hcons : writeNe (w :: words) ++ rest = toNeBytes w ++ (writeNe words ++ rest) := by
      simp [writeNe]
    cases i with
    | zero =>
      rw [readNe, hcons, Nat.mul_zero, List.drop_zero, ← hlen, List.take_left',
        fromNeBytes_toNeBytes]
      · rfl
      · rfl
    | succ i =>
      have hdrop : (writeNe (w :: words) ++ rest).drop (4 * (i + 1)) =
          (writeNe words ++ rest).drop (4 * i) := by
        rw [hcons, Nat.mul_succ, Nat.add_comm, ← List.drop_drop, List.drop_left' hlen]
      rw [readNe, hdrop]
      exact ih i (Nat.lt_of_succ_lt_succ h)

/-- And bytes are what their integers are written as. -/
theorem writeNe_readNe (bs : Bytes) (n : Nat) (h : 4 * n ≤ bs.length) :
    writeNe ((List.range n).map (fun i => readNe bs (4 * i))) = bs.take (4 * n) := by
  induction n with
  | zero => simp [writeNe]
  | succ n ih =>
    have hword : toNeBytes (readNe bs (4 * n)) = (bs.drop (4 * n)).take 4 :=
      toNeBytes_fromNeBytes _ (by simp; omega)
    rw [List.range_succ, List.map_append, writeNe, List.flatMap_append, ← writeNe, ih (by omega),
      Nat.mul_succ, List.take_add]
    simp [hword]

/-- Bytes are the words in front and what is behind them. -/
theorem writeNe_readNe_append (bs : Bytes) (n : Nat) (h : 4 * n ≤ bs.length) :
    writeNe ((List.range n).map (fun i => readNe bs (4 * i))) ++ bs.drop (4 * n) = bs := by
  rw [writeNe_readNe bs n h, List.take_append_drop]

end

end Octets
