import Deezns.Octets

/-!
# Length-prefixed frames

A message travels behind its length, a big-endian integer of a fixed width. As
long as every length fits that width, whatever is written frame by frame is
read back frame by frame, up to an incomplete rest.
-/
namespace Framing

open Octets

/-- A message behind its length. -/
def frame (width : Nat) (message : Bytes) : Bytes := toBeBytes width message.length ++ message

/-- The first frame and what follows it, if there is a whole one. -/
def takeFrame (width : Nat) (bytes : Bytes) : Option (Bytes × Bytes) :=
  let len := fromBeBytes (bytes.take width)
  if width + len ≤ bytes.length then
    some ((bytes.drop width).take len, (bytes.drop width).drop len)
  else none

@[simp] theorem length_frame (width : Nat) (message : Bytes) :
    (frame width message).length = width + message.length := by
  simp [frame]

theorem takeFrame_frame (width : Nat) (message rest : Bytes) (h : message.length < 256 ^ width) :
    takeFrame width (frame width message ++ rest) = some (message, rest) := by
  have hlen : (toBeBytes width message.length).length = width := length_toBeBytes _ _
  have htake : (frame width message ++ rest).take width = toBeBytes width message.length := by
    rw [frame, List.append_assoc, List.take_left' hlen]
  have hdrop : (frame width message ++ rest).drop width = message ++ rest := by
    rw [frame, List.append_assoc, List.drop_left' hlen]
  simp only [takeFrame, htake, hdrop, fromBeBytes_toBeBytes, Nat.mod_eq_of_lt h]
  rw [if_pos (by simp), List.take_left, List.drop_left]

/-- Only a frame is read as one. -/
theorem takeFrame_eq_some_iff (width : Nat) (bytes message rest : Bytes) :
    takeFrame width bytes = some (message, rest) ↔
      message.length < 256 ^ width ∧ bytes = frame width message ++ rest := by
  constructor
  · intro h
    obtain ⟨hle, heq⟩ := Option.ite_none_right_eq_some.mp h
    obtain ⟨rfl, rfl⟩ := Prod.mk.inj (Option.some.inj heq)
    have hwidth : (bytes.take width).length = width := List.length_take_of_le (by omega)
    have hlen : ((bytes.drop width).take (fromBeBytes (bytes.take width))).length =
        fromBeBytes (bytes.take width) := by
      rw [List.length_take, List.length_drop]
      omega
    have hback := toBeBytes_fromBeBytes (bytes.take width)
    have hlt := fromBeBytes_lt (bytes.take width)
    rw [hwidth] at hback hlt
    refine ⟨by rwa [hlen], ?_⟩
    rw [frame, hlen, hback, List.append_assoc, List.take_append_drop, List.take_append_drop]
  · rintro ⟨h, rfl⟩
    exact takeFrame_frame width message rest h

/-- The frames at the front, and what is left when there is no whole one. -/
def takeFrames (width : Nat) : Nat → Bytes → List Bytes × Bytes
  | 0, bytes => ([], bytes)
  | fuel + 1, bytes =>
    match takeFrame width bytes with
    | none => ([], bytes)
    | some (message, rest) =>
      let (messages, left) := takeFrames width fuel rest
      (message :: messages, left)

/-- All the frames of a byte string; its length is fuel enough. -/
def unframe (width : Nat) (bytes : Bytes) : List Bytes × Bytes :=
  takeFrames width bytes.length bytes

theorem takeFrames_frames (width fuel : Nat) (messages : List Bytes) (left : Bytes)
    (hfuel : messages.length ≤ fuel) (hmessages : ∀ m ∈ messages, m.length < 256 ^ width)
    (hleft : takeFrame width left = none) :
    takeFrames width fuel (messages.flatMap (frame width) ++ left) = (messages, left) := by
  induction messages generalizing fuel with
  | nil =>
    cases fuel with
    | zero => rfl
    | succ fuel => simp [takeFrames, hleft]
  | cons m messages ih =>
    cases fuel with
    | zero => exact absurd hfuel (by simp)
    | succ fuel =>
      have hm := takeFrame_frame width m (messages.flatMap (frame width) ++ left)
        (hmessages m (by simp))
      rw [List.flatMap_cons, List.append_assoc, takeFrames, hm]
      simp only [ih fuel (Nat.le_of_succ_le_succ hfuel) (fun m hm => hmessages m (by simp [hm]))]

theorem length_le_frames (width : Nat) (hwidth : 0 < width) (messages : List Bytes) :
    messages.length ≤ (messages.flatMap (frame width)).length := by
  induction messages with
  | nil => exact le_rfl
  | cons m messages ih =>
    rw [List.flatMap_cons, List.length_append, length_frame, List.length_cons]
    omega

/-- What is written frame by frame is read back frame by frame. -/
theorem unframe_frames (width : Nat) (hwidth : 0 < width) (messages : List Bytes) (left : Bytes)
    (hmessages : ∀ m ∈ messages, m.length < 256 ^ width) (hleft : takeFrame width left = none) :
    unframe width (messages.flatMap (frame width) ++ left) = (messages, left) := by
  have hfuel := length_le_frames width hwidth messages
  refine takeFrames_frames width _ messages left ?_ hmessages hleft
  rw [List.length_append]
  omega

theorem takeFrame_nil (width : Nat) (hwidth : 0 < width) : takeFrame width [] = none :=
  if_neg (by simp; omega)

example : unframe 2 [0, 1, 7, 0, 0, 0, 2, 8] = ([[7], []], [0, 2, 8]) := by decide

end Framing
