import Deezns.Utf8

/-!
# Reading

Errors and the two ways the daemon reads: whole lines of a file, and exact
counts of bytes from a stream that may end, fail or stall. An operation that
never completes is `none`; only a deadline turns it into a result.
-/
namespace Deezns

open Octets (Bytes)
open Utf8 (Str encode)

inductive ErrorKind where
  | invalidData | invalidInput | unexpectedEof | timedOut | notFound | uncategorized
  deriving DecidableEq, Repr

/-- `io::Error`: one made by the program, or an error number of the system. -/
inductive IoError where
  | new (kind : ErrorKind) (message : String)
  | os (errno : Int32)
  deriving DecidableEq, Repr

/-- `e.kind() == UnexpectedEof`; no error number of the system is of that kind. -/
def IoError.isUnexpectedEof : IoError → Bool
  | .new kind _ => kind == .unexpectedEof
  | .os _ => false

/-- The results `BufRead::lines` yields until the end of its input. -/
abbrev Lines := List (Except IoError Str)

/-- What opening a path gives: an error, or a file to read line by line. -/
abbrev Files := Str → Except IoError Lines

/-- The lines of a file, each with its terminator if it has one. -/
def rawLines : Bytes → List Bytes
  | [] => []
  | b :: bs =>
    if b = 0x0A then [b] :: rawLines bs
    else
      match rawLines bs with
      | [] => [[b]]
      | line :: rest => (b :: line) :: rest

def stripTerminator (line : Str) : Str :=
  if line.getLast? = some '\n' then
    let line := line.dropLast
    if line.getLast? = some '\r' then line.dropLast else line
  else line

def lineText (raw : Bytes) : Except IoError Str :=
  match Utf8.decode raw with
  | some line => .ok (stripTerminator line)
  | none => .error (.new .invalidData "stream did not contain valid UTF-8")

/-- `BufRead::lines` on the bytes of a file. -/
def lines (file : Bytes) : Lines := (rawLines file).map lineText

/-- Files join line by line where the first one ends its last line. -/
theorem rawLines_append (file file' : Bytes) :
    rawLines (file ++ 0x0A :: file') = rawLines (file ++ [0x0A]) ++ rawLines file' := by
  induction file with
  | nil => simp [rawLines]
  | cons b bs ih =>
    by_cases hb : b = 0x0A
    · simp [rawLines, hb, ih]
    · obtain ⟨line, rest, hline⟩ : ∃ line rest, rawLines (bs ++ [0x0A]) = line :: rest := by
        cases bs with
        | nil => exact ⟨[0x0A], [], by simp [rawLines]⟩
        | cons c cs =>
          simp only [List.cons_append, rawLines]
          split
          · exact ⟨_, _, rfl⟩
          · split <;> exact ⟨_, _, rfl⟩
      simp [rawLines, hb, ih, hline]

theorem lines_append (file file' : Bytes) :
    lines (file ++ 0x0A :: file') = lines (file ++ [0x0A]) ++ lines file' := by
  rw [lines, rawLines_append, List.map_append]
  rfl

theorem rawLines_concat {line : Bytes} (h : 0x0A ∉ line) :
    rawLines (line ++ [0x0A]) = [line ++ [0x0A]] := by
  induction line with
  | nil => rfl
  | cons b bs ih =>
    rw [List.mem_cons, not_or] at h
    rw [List.cons_append, rawLines, if_neg (Ne.symm h.1), ih h.2]

/-- Lines that are written one after another are read as such. -/
theorem rawLines_flatten {written : List Bytes}
    (h : ∀ reply ∈ written, ∃ line, reply = line ++ [0x0A] ∧ 0x0A ∉ line) :
    rawLines written.flatten = written := by
  induction written with
  | nil => rfl
  | cons reply written ih =>
    rw [List.forall_mem_cons] at h
    obtain ⟨⟨line, rfl, hline⟩, hwritten⟩ := h
    have hsplit : (line ++ [0x0A]) ++ written.flatten = line ++ 0x0A :: written.flatten := by
      simp
    rw [List.flatten_cons, hsplit, rawLines_append, rawLines_concat hline, ih hwritten]
    rfl

theorem newline_not_mem_encode {line : Str} (h : '\n' ∉ line) : 0x0A ∉ encode line := by
  rwa [← Utf8.ascii_mem_encode_iff (by decide)] at h

theorem decode_concat (line : Str) :
    Utf8.decode (encode line ++ [0x0A]) = some (line ++ ['\n']) := by
  rw [Utf8.decode_eq_some_iff, Utf8.encode_append]
  rfl

theorem lines_concat {line : Str} (h : '\n' ∉ line) (hcr : line.getLast? ≠ some '\r') :
    lines (encode line ++ [0x0A]) = [.ok line] := by
  rw [lines, rawLines_concat (newline_not_mem_encode h), List.map_singleton, lineText,
    decode_concat]
  simp [stripTerminator, hcr]

/-- How a stream goes on after the bytes it delivers. -/
inductive Ending where
  | eof
  | error (e : IoError)
  | stall
  deriving DecidableEq, Repr

structure Stream where
  bytes : Bytes
  ending : Ending
  deriving DecidableEq, Repr

/-- An asynchronous operation: `none` while it never completes. -/
abbrev Async (α : Type) := Option (Except IoError α)

def earlyEof : IoError := .new .unexpectedEof "early eof"

/-- `read_exact`: `n` bytes and the stream behind them. -/
def Stream.readExact (s : Stream) (n : Nat) : Async (Bytes × Stream) :=
  if n ≤ s.bytes.length then some (.ok (s.bytes.take n, { s with bytes := s.bytes.drop n }))
  else
    match s.ending with
    | .eof => some (.error earlyEof)
    | .error e => some (.error e)
    | .stall => none

theorem Stream.readExact_eq_ok_iff (s rest : Stream) (n : Nat) (bs : Bytes) :
    s.readExact n = some (.ok (bs, rest)) ↔
      bs.length = n ∧ s = ⟨bs ++ rest.bytes, rest.ending⟩ := by
  constructor
  · intro h
    unfold readExact at h
    split at h
    · next hle =>
      cases h
      exact ⟨List.length_take_of_le hle, by simp⟩
    · split at h <;> cases h
  · rintro ⟨rfl, rfl⟩
    simp [readExact]

/-- `read_line`: the first line with its terminator, or all there is. -/
def Stream.readLine (s : Stream) : Async Str :=
  let decode (raw : Bytes) : Except IoError Str :=
    match Utf8.decode raw with
    | some line => .ok line
    | none => .error (.new .invalidData "stream did not contain valid UTF-8")
  if 0x0A ∈ s.bytes then some (decode (s.bytes.takeWhile (· ≠ 0x0A) ++ [0x0A]))
  else
    match s.ending with
    | .eof => some (decode s.bytes)
    | .error e => some (.error e)
    | .stall => none

/-- A line that is complete is read, whatever follows it. -/
theorem Stream.readLine_eq {line : Str} (h : '\n' ∉ line) (rest : Bytes) (ending : Ending) :
    (Stream.mk (encode line ++ 0x0A :: rest) ending).readLine = some (.ok (line ++ ['\n'])) := by
  have hraw := newline_not_mem_encode h
  have htake : (encode line ++ 0x0A :: rest).takeWhile (fun b => decide (b ≠ 0x0A)) =
      encode line := by
    rw [List.takeWhile_append_of_pos (fun b hb => decide_eq_true (ne_of_mem_of_not_mem hb hraw))]
    simp
  simp only [readLine]
  rw [if_pos (by simp), htake, decode_concat]

end Deezns
