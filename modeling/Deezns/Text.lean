import Deezns.Utf8
import Mathlib.Data.List.DropRight

/-!
# String methods

The methods of Rust's `str` and `char` that the daemon uses, on lists of
scalar values. Lower-casing is ASCII only; white space is Unicode's
`White_Space` property; a length in bytes is that of the UTF-8 encoding.
-/
namespace Text

open Utf8 (Str encode)

/-- `str::to_ascii_lowercase`. -/
def toAsciiLowercase (s : Str) : Str := s.map Char.toLower

/-- `char::is_whitespace`: the code points with the property `White_Space`. -/
def isWhitespace (c : Char) : Bool :=
  (0x9 ≤ c.toNat && c.toNat ≤ 0xD) || c.toNat == 0x20 || c.toNat == 0x85 || c.toNat == 0xA0 ||
  c.toNat == 0x1680 || (0x2000 ≤ c.toNat && c.toNat ≤ 0x200A) || c.toNat == 0x2028 ||
  c.toNat == 0x2029 || c.toNat == 0x202F || c.toNat == 0x205F || c.toNat == 0x3000

/-- `str::trim_end_matches` with a predicate on characters. -/
def trimEndMatches (p : Char → Bool) (s : Str) : Str := s.rdropWhile p

/-- `str::trim`. -/
def trim (s : Str) : Str := (s.dropWhile isWhitespace).rdropWhile isWhitespace

/-- `str::split_whitespace`: the non-empty pieces between white space. -/
def splitWhitespace (s : Str) : List Str :=
  (s.splitOnP isWhitespace).filter (fun token => !token.isEmpty)

/-- `str::strip_prefix`. -/
def stripPrefix (pre s : Str) : Option Str :=
  if pre <+: s then some (s.drop pre.length) else none

/-- `str::len`, which counts bytes. -/
def byteLen (s : Str) : Nat := (encode s).length

theorem toNat_toLower (c : Char) :
    c.toLower.toNat = if 65 ≤ c.toNat ∧ c.toNat ≤ 90 then c.toNat + 32 else c.toNat := by
  have hupper : ('A'.val ≤ c.val ∧ c.val ≤ 'Z'.val) ↔ (65 ≤ c.toNat ∧ c.toNat ≤ 90) := Iff.rfl
  unfold Char.toLower
  by_cases h : 65 ≤ c.toNat ∧ c.toNat ≤ 90
  · rw [dif_pos (hupper.mpr h), if_pos h]
    change (c.val + ('a'.val - 'A'.val)).toNat = c.toNat + 32
    have hshift : ('a'.val - 'A'.val).toNat = 32 := by decide
    have hval : c.val.toNat = c.toNat := rfl
    rw [UInt32.toNat_add, hshift]
    omega
  · rw [dif_neg (mt hupper.mp h), if_neg h]

theorem isAlphanum_iff (c : Char) : c.isAlphanum = true ↔
    (65 ≤ c.toNat ∧ c.toNat ≤ 90) ∨ (97 ≤ c.toNat ∧ c.toNat ≤ 122) ∨
      (48 ≤ c.toNat ∧ c.toNat ≤ 57) := by
  have hdef : c.isAlphanum = ((decide (c.val ≥ 'A'.val ∧ c.val ≤ 'Z'.val) ||
      (decide (c.val ≥ 'a'.val) && decide (c.val ≤ 'z'.val))) ||
      (decide (c.val ≥ '0'.val) && decide (c.val ≤ '9'.val))) := rfl
  simp only [hdef, Bool.or_eq_true, Bool.and_eq_true, decide_eq_true_eq, or_assoc]
  rfl

@[simp] theorem toLower_toLower (c : Char) : c.toLower.toLower = c.toLower := by
  apply Char.toNat_inj.mp
  simp only [toNat_toLower]
  split
  · rw [if_neg (by omega)]
  · rfl

@[simp] theorem isAlphanum_toLower (c : Char) : c.toLower.isAlphanum = c.isAlphanum := by
  rw [Bool.eq_iff_iff, isAlphanum_iff, isAlphanum_iff, toNat_toLower]
  split <;> omega

/-- Lower-casing neither makes nor removes a character that is not a letter. -/
theorem toLower_eq_iff (c d : Char) (hd : d.toNat < 65) : c.toLower = d ↔ c = d := by
  rw [← Char.toNat_inj, ← Char.toNat_inj, toNat_toLower]
  split <;> omega

@[simp] theorem toLower_eq_dot_iff (c : Char) : c.toLower = '.' ↔ c = '.' :=
  toLower_eq_iff c '.' (by decide)
@[simp] theorem toLower_eq_hyphen_iff (c : Char) : c.toLower = '-' ↔ c = '-' :=
  toLower_eq_iff c '-' (by decide)

@[simp] theorem utf8Size_toLower (c : Char) : c.toLower.utf8Size = c.utf8Size := by
  by_cases h : 65 ≤ c.toNat ∧ c.toNat ≤ 90
  · have hc : c.utf8Size = 1 := Char.utf8Size_eq_one_iff.mpr (by
      rw [UInt32.le_iff_toNat_le]
      change c.toNat ≤ 127
      omega)
    have hl : c.toLower.utf8Size = 1 := Char.utf8Size_eq_one_iff.mpr (by
      rw [UInt32.le_iff_toNat_le]
      change c.toLower.toNat ≤ 127
      rw [toNat_toLower, if_pos h]
      omega)
    rw [hc, hl]
  · have hc : c.toLower = c := by
      apply Char.toNat_inj.mp
      rw [toNat_toLower, if_neg h]
    rw [hc]

@[simp] theorem toAsciiLowercase_nil : toAsciiLowercase [] = [] := rfl
@[simp] theorem toAsciiLowercase_cons (c : Char) (s : Str) :
    toAsciiLowercase (c :: s) = c.toLower :: toAsciiLowercase s := rfl
@[simp] theorem toAsciiLowercase_append (s t : Str) :
    toAsciiLowercase (s ++ t) = toAsciiLowercase s ++ toAsciiLowercase t := List.map_append
@[simp] theorem length_toAsciiLowercase (s : Str) :
    (toAsciiLowercase s).length = s.length := List.length_map _
@[simp] theorem toAsciiLowercase_eq_nil_iff (s : Str) : toAsciiLowercase s = [] ↔ s = [] := by
  simp [toAsciiLowercase]

@[simp] theorem toAsciiLowercase_idem (s : Str) :
    toAsciiLowercase (toAsciiLowercase s) = toAsciiLowercase s := by
  simp [toAsciiLowercase]

@[simp] theorem byteLen_toAsciiLowercase (s : Str) :
    byteLen (toAsciiLowercase s) = byteLen s := by
  induction s with
  | nil => rfl
  | cons c s ih =>
    simp only [byteLen, toAsciiLowercase_cons, Utf8.encode_cons, List.length_append,
      String.length_utf8EncodeChar, utf8Size_toLower] at ih ⊢
    omega

theorem trimEndMatches_append (p : Char → Bool) (s run : Str) (hrun : ∀ c ∈ run, p c = true)
    (hlast : ∀ h : s ≠ [], ¬ p (s.getLast h) = true) : trimEndMatches p (s ++ run) = s := by
  induction run using List.reverseRecOn with
  | nil =>
    rw [List.append_nil]
    exact List.rdropWhile_eq_self_iff.mpr hlast
  | append_singleton run c ih =>
    rw [trimEndMatches, ← List.append_assoc, List.rdropWhile_concat_pos _ _ _ (hrun c (by simp))]
    exact ih (fun x hx => hrun x (by simp [hx]))

theorem trimEndMatches_split (p : Char → Bool) (s : Str) :
    ∃ run, s = trimEndMatches p s ++ run ∧ ∀ c ∈ run, p c = true :=
  ⟨s.rtakeWhile p, List.rdropWhile_append_rtakeWhile.symm, fun _ hc => List.mem_rtakeWhile_imp hc⟩

/-- What trimming takes off is white space, before and after. -/
theorem trim_split (s : Str) : ∃ before after, s = before ++ trim s ++ after ∧
    (∀ c ∈ before, isWhitespace c = true) ∧ ∀ c ∈ after, isWhitespace c = true := by
  obtain ⟨after, hafter, hall⟩ := trimEndMatches_split isWhitespace (s.dropWhile isWhitespace)
  refine ⟨s.takeWhile isWhitespace, after, ?_, fun c hc => List.mem_takeWhile_imp hc, hall⟩
  have hsplit := List.takeWhile_append_dropWhile (p := isWhitespace) (l := s)
  rw [hafter] at hsplit
  rw [List.append_assoc]
  exact hsplit.symm

/-- Trimming removes exactly the white space around a text that neither starts
nor ends with any. -/
theorem trim_eq_iff (s d : Str) (hd : d ≠ []) (hws : ∀ c ∈ d, isWhitespace c = false) :
    trim s = d ↔ ∃ before after, s = before ++ d ++ after ∧
      (∀ c ∈ before, isWhitespace c = true) ∧ (∀ c ∈ after, isWhitespace c = true) := by
  constructor
  · rintro rfl
    exact trim_split s
  · rintro ⟨before, after, rfl, hbefore, hafter⟩
    obtain ⟨c, tail, rfl⟩ := List.exists_cons_of_ne_nil hd
    have hdrop : (before ++ (c :: tail) ++ after).dropWhile isWhitespace =
        (c :: tail) ++ after := by
      rw [List.append_assoc, List.dropWhile_append_of_pos hbefore]
      exact List.dropWhile_cons_of_neg (by simp [hws c (by simp)])
    rw [trim, hdrop]
    exact trimEndMatches_append isWhitespace _ after hafter
      (fun h => by simp [hws _ (List.getLast_mem h)])

/-! Words are what stands between white space. -/

@[simp] theorem splitWhitespace_nil : splitWhitespace [] = [] := by
  simp [splitWhitespace]

/-- White space ends a word, and belongs to none. -/
theorem splitWhitespace_append_cons (x y : Str) {c : Char} (hc : isWhitespace c = true) :
    splitWhitespace (x ++ c :: y) = splitWhitespace x ++ splitWhitespace y := by
  rw [splitWhitespace, List.splitOnP_append_cons x y hc, List.filter_append]
  rfl

theorem splitWhitespace_word (w : Str) (hne : w ≠ []) (hw : ∀ c ∈ w, isWhitespace c = false) :
    splitWhitespace w = [w] := by
  rw [splitWhitespace, List.splitOnP_eq_singleton hw]
  simp [hne]

theorem splitWhitespace_append_of_head (x y : Str)
    (hy : ∀ c, y.head? = some c → isWhitespace c = true) :
    splitWhitespace (x ++ y) = splitWhitespace x ++ splitWhitespace y := by
  cases y with
  | nil => simp
  | cons c y =>
    have hc : isWhitespace c = true := hy c rfl
    have hblank := splitWhitespace_append_cons [] y hc
    rw [List.nil_append, splitWhitespace_nil, List.nil_append] at hblank
    rw [splitWhitespace_append_cons x y hc, hblank]

theorem splitWhitespace_append_of_getLast (x y : Str)
    (hx : ∀ c, x.getLast? = some c → isWhitespace c = true) :
    splitWhitespace (x ++ y) = splitWhitespace x ++ splitWhitespace y := by
  cases x using List.reverseRecOn with
  | nil => simp
  | append_singleton x c =>
    have hc : isWhitespace c = true := hx c (by simp)
    have hblank := splitWhitespace_append_cons x [] hc
    rw [splitWhitespace_nil, List.append_nil] at hblank
    rw [List.append_assoc, List.singleton_append, splitWhitespace_append_cons x y hc, hblank]

theorem splitWhitespace_blank (s : Str) (hs : ∀ c ∈ s, isWhitespace c = true) :
    splitWhitespace s = [] := by
  induction s with
  | nil => simp
  | cons c s ih =>
    have hrest := ih (fun x hx => hs x (List.mem_cons_of_mem _ hx))
    simpa [hrest] using splitWhitespace_append_cons [] s (hs c (by simp))

/-- Trimming takes nothing off a word. -/
theorem splitWhitespace_trim (s : Str) : splitWhitespace (trim s) = splitWhitespace s := by
  obtain ⟨before, after, hs, hbefore, hafter⟩ := trim_split s
  have hlead := splitWhitespace_append_of_getLast before (trim s ++ after)
    (fun c hc => hbefore c (List.mem_of_getLast? hc))
  have htail := splitWhitespace_append_of_head (trim s) after
    (fun c hc => hafter c (List.mem_of_head? hc))
  rw [← List.append_assoc, ← hs, htail, splitWhitespace_blank before hbefore,
    splitWhitespace_blank after hafter, List.nil_append, List.append_nil] at hlead
  exact hlead.symm

/-- A word goes on up to the next white space. -/
theorem splitWhitespace_word_append (w s : Str) (hne : w ≠ [])
    (hw : ∀ c ∈ w, isWhitespace c = false) :
    ∃ word more, splitWhitespace (w ++ s) = (w ++ word) :: more := by
  have hword : ∀ c ∈ w ++ s.takeWhile (fun c => !isWhitespace c), isWhitespace c = false := by
    intro c hc
    rcases List.mem_append.mp hc with hc | hc
    · exact hw c hc
    · simpa using List.mem_takeWhile_imp hc
  have hrest : ∀ c, (s.dropWhile (fun c => !isWhitespace c)).head? = some c →
      isWhitespace c = true := by
    intro c hc
    have hhead := List.head?_dropWhile_not (fun c => !isWhitespace c) s
    simpa [hc] using hhead
  have hsplit := splitWhitespace_append_of_head (w ++ s.takeWhile (fun c => !isWhitespace c)) _
    hrest
  rw [List.append_assoc, List.takeWhile_append_dropWhile,
    splitWhitespace_word _ (by simp [hne]) hword] at hsplit
  exact ⟨_, _, hsplit⟩

/-- A text that ends with no white space ends with its last word. -/
theorem exists_last_word (s : Str) (c : Char) (hc : s.getLast? = some c)
    (hnot : isWhitespace c = false) :
    ∃ start word, s = start ++ word ∧ word ≠ [] ∧ (∀ x ∈ word, isWhitespace x = false) ∧
      ∀ x, start.getLast? = some x → isWhitespace x = true := by
  refine ⟨s.rdropWhile (fun x => !isWhitespace x), s.rtakeWhile (fun x => !isWhitespace x),
    List.rdropWhile_append_rtakeWhile.symm, ?_, ?_, ?_⟩
  · intro hnil
    have hlast := List.rtakeWhile_eq_nil_iff.mp hnil (by rintro rfl; cases hc)
    rw [List.getLast?_eq_some_getLast (by rintro rfl; cases hc), Option.some.injEq] at hc
    rw [hc, hnot] at hlast
    exact hlast rfl
  · intro x hx
    simpa using List.mem_rtakeWhile_imp hx
  · intro x hx
    have hne : s.rdropWhile (fun x => !isWhitespace x) ≠ [] := by
      intro hnil
      rw [hnil] at hx
      cases hx
    have hlast := List.rdropWhile_last_not _ _ hne
    rw [List.getLast?_eq_some_getLast hne, Option.some.injEq] at hx
    simpa [hx] using hlast

theorem head?_trim (s : Str) (c : Char) (hc : (trim s).head? = some c) :
    isWhitespace c = false := by
  obtain ⟨after, hafter, _⟩ := trimEndMatches_split isWhitespace (s.dropWhile isWhitespace)
  have hhead := List.head?_dropWhile_not isWhitespace s
  have hsame : (s.dropWhile isWhitespace).head? = some c := by
    rw [hafter, List.head?_append_of_ne_nil]
    · exact hc
    · intro hnil
      rw [trim, ← trimEndMatches, hnil] at hc
      cases hc
  rw [hsame] at hhead
  simpa using hhead

/-- A trimmed text starts with its first word. -/
theorem head?_trim_eq {s word : Str} {more : List Str}
    (hwords : splitWhitespace s = word :: more) : (trim s).head? = word.head? := by
  rw [← splitWhitespace_trim] at hwords
  cases htrim : trim s with
  | nil =>
    rw [htrim] at hwords
    cases hwords
  | cons c rest =>
    have hc := head?_trim s c (by rw [htrim]; rfl)
    obtain ⟨word', more', hsplit⟩ := splitWhitespace_word_append [c] rest (by simp) (by simp [hc])
    rw [htrim, ← List.singleton_append, hsplit] at hwords
    injection hwords with hword
    rw [← hword]
    rfl

/-- `u8::to_ascii_lowercase`. -/
def lowerByte (b : UInt8) : UInt8 := if 65 ≤ b.toNat ∧ b.toNat ≤ 90 then b + 32 else b

theorem utf8EncodeChar_toLower (c : Char) :
    String.utf8EncodeChar c.toLower = (String.utf8EncodeChar c).map lowerByte := by
  have hlower := toNat_toLower c
  by_cases h : c.toNat < 128
  · have hascii : c.toLower.toNat < 128 := by
      rw [hlower]
      split <;> omega
    rw [Utf8.utf8EncodeChar_of_ascii h, Utf8.utf8EncodeChar_of_ascii hascii, hlower]
    have hbyte : (UInt8.ofNat c.toNat).toNat = c.toNat := by
      rw [UInt8.toNat_ofNat']
      omega
    rw [List.map_cons, List.map_nil, lowerByte, hbyte]
    split
    · rw [UInt8.ofNat_add]
      rfl
    · rfl
  · have hsame : c.toLower = c := by
      apply Char.toNat_inj.mp
      rw [hlower, if_neg (by omega)]
    have hbytes : (String.utf8EncodeChar c).map lowerByte = String.utf8EncodeChar c := by
      refine (List.map_congr_left ?_).trans (List.map_id _)
      intro b hb
      have hle := Utf8.le_of_mem_utf8EncodeChar (Nat.le_of_not_lt h) hb
      exact if_neg (by omega)
    rw [hsame, hbytes]

/-- Lower-casing text is lower-casing its bytes. -/
theorem encode_toAsciiLowercase (s : Str) :
    encode (toAsciiLowercase s) = (encode s).map lowerByte := by
  induction s with
  | nil => rfl
  | cons c s ih =>
    rw [toAsciiLowercase_cons, Utf8.encode_cons, Utf8.encode_cons, List.map_append, ih,
      utf8EncodeChar_toLower]

/-! Names are texts joined with dots. -/

theorem toAsciiLowercase_intercalate (texts : List Str) :
    toAsciiLowercase (['.'].intercalate texts) =
      ['.'].intercalate (texts.map toAsciiLowercase) := by
  induction texts with
  | nil => rfl
  | cons t texts ih =>
    cases texts with
    | nil => simp
    | cons t' texts =>
      have hdot : toAsciiLowercase ['.'] = ['.'] := rfl
      rw [List.intercalate_cons_cons, toAsciiLowercase_append, toAsciiLowercase_append, ih, hdot,
        List.map_cons, List.map_cons, List.map_cons, List.intercalate_cons_cons]

/-- A text that can stand between two dots. -/
def IsPiece (t : Str) : Prop := t ≠ [] ∧ '.' ∉ t

theorem intercalate_ne_nil {t : Str} (ht : t ≠ []) (texts : List Str) :
    ['.'].intercalate (t :: texts) ≠ [] := by
  cases texts with
  | nil => simpa using ht
  | cons t' texts => simp

theorem getLast?_intercalate_ne_dot (texts : List Str) (h : ∀ t ∈ texts, IsPiece t) :
    (['.'].intercalate texts).getLast? ≠ some '.' := by
  induction texts with
  | nil => simp
  | cons t texts ih =>
    cases texts with
    | nil =>
      intro hlast
      rw [List.intercalate_singleton] at hlast
      exact (h t (by simp)).2 (List.mem_of_getLast? hlast)
    | cons t' texts =>
      have hne := intercalate_ne_nil (h t' (by simp)).1 texts
      have hrest := ih (fun t ht => h t (List.mem_cons_of_mem _ ht))
      rwa [List.intercalate_cons_cons, List.getLast?_append_of_ne_nil _ hne]

/-- Pieces joined with dots can be told apart again. -/
theorem intercalate_inj {texts texts' : List Str} (h : ∀ t ∈ texts, IsPiece t)
    (h' : ∀ t ∈ texts', IsPiece t)
    (heq : ['.'].intercalate texts = ['.'].intercalate texts') : texts = texts' := by
  cases texts with
  | nil =>
    cases texts' with
    | nil => rfl
    | cons t' texts' => exact absurd heq.symm (intercalate_ne_nil (h' t' (by simp)).1 texts')
  | cons t texts =>
    cases texts' with
    | nil => exact absurd heq (intercalate_ne_nil (h t (by simp)).1 texts)
    | cons t' texts' =>
      have hsplit := List.splitOn_intercalate '.' (fun t ht => (h t ht).2)
        (List.cons_ne_nil t texts)
      have hsplit' := List.splitOn_intercalate '.' (fun t ht => (h' t ht).2)
        (List.cons_ne_nil t' texts')
      rw [← hsplit, ← hsplit', heq]

end Text
