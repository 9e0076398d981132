import Deezns.Blocklist

/-!
# What a blocklist blocks

`Lists` says which entry a line states, in the spelling of the line, for each
of the three formats; `Blocks` says which names such an entry covers. A parsed
file contains a name exactly when one of its lines blocks it, so the two sets,
the order of the insertions and the loop over parent domains never show.
-/
namespace Deezns

open Utf8 (Str)
open Text

def BlocklistEntry.toAsciiLowercase : BlocklistEntry → BlocklistEntry
  | .exact d => .exact (Text.toAsciiLowercase d)
  | .domainAndSubs d => .domainAndSubs (Text.toAsciiLowercase d)

/-- The names an entry covers, whatever the case of either. -/
def BlocklistEntry.Matches (hostname : Str) : BlocklistEntry → Prop
  | .exact d => Text.toAsciiLowercase hostname = Text.toAsciiLowercase d
  | .domainAndSubs d => Text.toAsciiLowercase hostname = Text.toAsciiLowercase d ∨
      '.' :: Text.toAsciiLowercase d <:+ Text.toAsciiLowercase hostname

@[simp] theorem BlocklistEntry.matches_toAsciiLowercase (entry : BlocklistEntry)
    (hostname : Str) : entry.toAsciiLowercase.Matches hostname ↔ entry.Matches hostname := by
  cases entry <;> simp [BlocklistEntry.toAsciiLowercase, Matches, toAsciiLowercase_idem]

namespace Blocklist

/-- The entry a trimmed line states, in each of the three formats. -/
inductive Lists (line : Str) : BlocklistEntry → Prop where
  | domainOnly (d : Str) (hbar : ¬ "||".toList <+: line) (hexc : ¬ "@@".toList <+: line)
      (htokens : splitWhitespace line = [d]) (hd : isValidDomain d = true) :
      Lists line (.exact d)
  | hosts (ip d : Str) (more : List Str) (hbar : ¬ "||".toList <+: line)
      (hexc : ¬ "@@".toList <+: line) (htokens : splitWhitespace line = ip :: d :: more)
      (hip : looksLikeIp ip = true) (hd : isValidDomain d = true) : Lists line (.exact d)
  | adBlock (before d after run : Str) (hline : line = "||".toList ++ before ++ d ++ after ++ run)
      (hbefore : ∀ c ∈ before, isWhitespace c = true) (hafter : ∀ c ∈ after, isWhitespace c = true)
      (hrun : ∀ c ∈ run, c = '^' ∨ c = '|') (hd : isValidDomain d = true) :
      Lists line (.domainAndSubs d)

/-- A trimmed line that is skipped unread. -/
def Skipped (line : Str) : Prop := line = [] ∨ line.head? = some '#' ∨ line.head? = some '!'

def Blocks (line hostname : Str) : Prop :=
  ¬ Skipped line ∧ ∃ entry, Lists line entry ∧ entry.Matches hostname

theorem isValidDomain_iff (d : Str) : isValidDomain d = true ↔
    d ≠ [] ∧ byteLen d ≤ 253 ∧ '.' ∈ d ∧
      ∀ c ∈ d, c.isAlphanum = true ∨ c = '-' ∨ c = '.' := by
  simp [isValidDomain, and_assoc, or_assoc]

@[simp] theorem isValidDomain_toAsciiLowercase (d : Str) :
    isValidDomain (toAsciiLowercase d) = isValidDomain d := by
  have hdot : '.' ∈ toAsciiLowercase d ↔ '.' ∈ d := by
    simp [toAsciiLowercase, List.mem_map]
  have hall : (∀ c ∈ toAsciiLowercase d, c.isAlphanum = true ∨ c = '-' ∨ c = '.') ↔
      ∀ c ∈ d, c.isAlphanum = true ∨ c = '-' ∨ c = '.' := by
    simp [toAsciiLowercase, List.mem_map]
  rw [Bool.eq_iff_iff, isValidDomain_iff, isValidDomain_iff, hdot, hall]
  simp

/-- A valid domain holds neither white space nor the marks of the other formats. -/
theorem isValidDomain_plain (d : Str) (hd : isValidDomain d = true) (c : Char) (hc : c ∈ d) :
    isWhitespace c = false ∧ isSeparator c = false := by
  obtain ⟨_, _, _, hall⟩ := (isValidDomain_iff d).mp hd
  rcases hall c hc with h | rfl | rfl
  · rw [isAlphanum_iff] at h
    have hne : c ≠ '^' ∧ c ≠ '|' := by
      constructor <;> (rintro rfl; revert h; decide)
    constructor
    · simp only [isWhitespace, Bool.or_eq_false_iff, Bool.and_eq_false_iff, decide_eq_false_iff_not,
        beq_eq_false_iff_ne]
      omega
    · simp [isSeparator, hne]
  · decide
  · decide

theorem isSeparator_of_isWhitespace (c : Char) (hc : isWhitespace c = true) :
    isSeparator c = false := by
  simp only [isSeparator, Bool.or_eq_false_iff, beq_eq_false_iff_ne]
  constructor <;> (rintro rfl; revert hc; decide)

/-- The AdBlock branch recovers the domain between the optional white space
and the closing marks. -/
theorem trim_trimEndMatches_iff (rest d : Str) (hd : isValidDomain d = true) :
    trim (trimEndMatches isSeparator rest) = d ↔ ∃ before after run,
      rest = before ++ d ++ after ++ run ∧ (∀ c ∈ before, isWhitespace c = true) ∧
      (∀ c ∈ after, isWhitespace c = true) ∧ ∀ c ∈ run, c = '^' ∨ c = '|' := by
  have hne : d ≠ [] := ((isValidDomain_iff d).mp hd).1
  have hplain := isValidDomain_plain d hd
  have hsep : ∀ c, isSeparator c = true ↔ c = '^' ∨ c = '|' := by simp [isSeparator]
  rw [trim_eq_iff _ _ hne (fun c hc => (hplain c hc).1)]
  constructor
  · rintro ⟨before, after, heq, hbefore, hafter⟩
    obtain ⟨run, hrest, hrun⟩ := trimEndMatches_split isSeparator rest
    rw [heq] at hrest
    exact ⟨before, after, run, hrest, hbefore, hafter, fun c hc => (hsep c).mp (hrun c hc)⟩
  · rintro ⟨before, after, run, rfl, hbefore, hafter, hrun⟩
    refine ⟨before, after, ?_, hbefore, hafter⟩
    apply trimEndMatches_append _ _ _ (fun c hc => (hsep c).mpr (hrun c hc))
    intro h hc
    have hmem := List.getLast_mem h
    generalize (before ++ d ++ after).getLast h = c at hmem hc
    simp only [List.mem_append] at hmem
    have hnot : isSeparator c = false := by
      rcases hmem with (hm | hm) | hm
      · exact isSeparator_of_isWhitespace c (hbefore c hm)
      · exact (hplain c hm).2
      · exact isSeparator_of_isWhitespace c (hafter c hm)
    simp [hnot] at hc

theorem stripPrefix_eq_some_iff (pre s rest : Str) :
    stripPrefix pre s = some rest ↔ s = pre ++ rest := by
  unfold stripPrefix
  split
  · next h =>
    obtain ⟨t, rfl⟩ := h
    simp [eq_comm]
  · next h =>
    simp only [reduceCtorEq, false_iff]
    rintro rfl
    exact h (List.prefix_append _ _)

theorem stripPrefix_eq_none_iff (pre s : Str) : stripPrefix pre s = none ↔ ¬ pre <+: s := by
  unfold stripPrefix
  split <;> simp [*]

theorem ne_localhost (d : Str) (hd : isValidDomain d = true) : d ≠ "localhost".toList := by
  rintro rfl
  revert hd
  decide

theorem parseLine_adBlock (rest : Str) (e : BlocklistEntry) :
    parseLine ("||".toList ++ rest) = some e ↔ ∃ before d after run,
      rest = before ++ d ++ after ++ run ∧ (∀ c ∈ before, isWhitespace c = true) ∧
      (∀ c ∈ after, isWhitespace c = true) ∧ (∀ c ∈ run, c = '^' ∨ c = '|') ∧
      isValidDomain d = true ∧ e = .domainAndSubs (toAsciiLowercase d) := by
  have hstrip := (stripPrefix_eq_some_iff "||".toList _ rest).mpr rfl
  simp only [parseLine, hstrip, isValidDomain_toAsciiLowercase, Option.ite_none_right_eq_some,
    Option.some.injEq]
  constructor
  · rintro ⟨hd, rfl⟩
    obtain ⟨before, after, run, hrest, hbefore, hafter, hrun⟩ :=
      (trim_trimEndMatches_iff rest _ hd).mp rfl
    exact ⟨before, _, after, run, hrest, hbefore, hafter, hrun, hd, rfl⟩
  · rintro ⟨before, d, after, run, hrest, hbefore, hafter, hrun, hd, rfl⟩
    have htrim := (trim_trimEndMatches_iff rest d hd).mpr
      ⟨before, after, run, hrest, hbefore, hafter, hrun⟩
    rw [htrim]
    exact ⟨hd, rfl⟩

theorem parseLine_tokens (line : Str) (e : BlocklistEntry) (hbar : ¬ "||".toList <+: line)
    (hexc : ¬ "@@".toList <+: line) : parseLine line = some e ↔ ∃ d, isValidDomain d = true ∧
      e = .exact (toAsciiLowercase d) ∧ (splitWhitespace line = [d] ∨
        ∃ ip more, splitWhitespace line = ip :: d :: more ∧ looksLikeIp ip = true) := by
  have hstrip := (stripPrefix_eq_none_iff "||".toList line).mpr hbar
  simp only [parseLine, hstrip, hexc, if_false]
  match splitWhitespace line with
  | [] => simp
  | [token] =>
    simp only [isValidDomain_toAsciiLowercase, Option.ite_none_right_eq_some, Option.some.injEq]
    constructor
    · rintro ⟨hd, rfl⟩
      exact ⟨token, hd, rfl, .inl rfl⟩
    · rintro ⟨d, hd, rfl, htok | ⟨ip, more, htok, _⟩⟩
      · cases htok
        exact ⟨hd, rfl⟩
      · cases htok
  | ip :: token :: more =>
    simp only [isValidDomain_toAsciiLowercase, Option.ite_none_right_eq_some, Option.some.injEq,
      Bool.and_eq_true, bne_iff_ne, ne_eq]
    constructor
    · rintro ⟨hip, ⟨hd, _⟩, rfl⟩
      exact ⟨token, hd, rfl, .inr ⟨ip, more, rfl, hip⟩⟩
    · rintro ⟨d, hd, rfl, htok | ⟨_, _, htok, hip⟩⟩
      · cases htok
      · cases htok
        have hne := ne_localhost (toAsciiLowercase token) (by simpa using hd)
        exact ⟨hip, ⟨hd, hne⟩, rfl⟩

theorem adBlock_starts_with_bars {line before d after run : Str}
    (hline : line = "||".toList ++ before ++ d ++ after ++ run) : "||".toList <+: line :=
  ⟨before ++ d ++ after ++ run, by simp [hline]⟩

/-- The parser finds exactly the entry the line states, in lower case. -/
theorem parseLine_eq_some_iff (line : Str) (e : BlocklistEntry) :
    parseLine line = some e ↔ ∃ entry, Lists line entry ∧ e = entry.toAsciiLowercase := by
  by_cases hbar : "||".toList <+: line
  · obtain ⟨rest, rfl⟩ := hbar
    rw [parseLine_adBlock]
    constructor
    · rintro ⟨before, d, after, run, rfl, hbefore, hafter, hrun, hd, rfl⟩
      exact ⟨.domainAndSubs d, .adBlock before d after run (by simp) hbefore hafter hrun hd, rfl⟩
    · rintro ⟨entry, hlists, rfl⟩
      cases hlists with
      | domainOnly d hbar => exact absurd (List.prefix_append _ _) hbar
      | hosts ip d more hbar => exact absurd (List.prefix_append _ _) hbar
      | adBlock before d after run hline hbefore hafter hrun hd =>
        refine ⟨before, d, after, run, ?_, hbefore, hafter, hrun, hd, rfl⟩
        simpa using hline
  · by_cases hexc : "@@".toList <+: line
    · have hnone : parseLine line = none := by
        simp only [parseLine, (stripPrefix_eq_none_iff _ _).mpr hbar, hexc, if_true]
      rw [hnone]
      constructor
      · intro h
        cases h
      · rintro ⟨entry, hlists, _⟩
        cases hlists with
        | domainOnly d _ hexc' => exact absurd hexc hexc'
        | hosts ip d more _ hexc' => exact absurd hexc hexc'
        | adBlock before d after run hline => exact absurd (adBlock_starts_with_bars hline) hbar
    · rw [parseLine_tokens line e hbar hexc]
      constructor
      · rintro ⟨d, hd, rfl, htok | ⟨ip, more, htok, hip⟩⟩
        · exact ⟨.exact d, .domainOnly d hbar hexc htok hd, rfl⟩
        · exact ⟨.exact d, .hosts ip d more hbar hexc htok hip hd, rfl⟩
      · rintro ⟨entry, hlists, rfl⟩
        cases hlists with
        | domainOnly d _ _ htok hd => exact ⟨d, hd, rfl, .inl htok⟩
        | hosts ip d more _ _ htok hip hd => exact ⟨d, hd, rfl, .inr ⟨ip, more, htok, hip⟩⟩
        | adBlock before d after run hline => exact absurd (adBlock_starts_with_bars hline) hbar

/-- Membership of a stored, lower-case entry in the set it belongs to. -/
def Has (list : Blocklist) : BlocklistEntry → Prop
  | .exact d => d ∈ list.exact
  | .domainAndSubs d => d ∈ list.suffixes

/-- A read result that adds `entry`. -/
def Adds (r : Except IoError Str) (entry : BlocklistEntry) : Prop :=
  ∃ line, r = .ok line ∧ ¬ Skipped (trim line) ∧ parseLine (trim line) = some entry

theorem has_parseStep (list : Blocklist) (r : Except IoError Str) (entry : BlocklistEntry) :
    (parseStep list r).Has entry ↔ list.Has entry ∨ Adds r entry := by
  cases r with
  | error e => simp [parseStep, Adds]
  | ok line =>
    by_cases hskip : Skipped (trim line)
    · have hsame : parseStep list (.ok line) = list := by
        simp only [Skipped] at hskip
        simp [parseStep, hskip, or_assoc]
      simp [hsame, Adds, hskip]
    · have hread : ¬ (((trim line).isEmpty || (trim line).head? == some '#' ||
          (trim line).head? == some '!') = true) := by
        simp only [Skipped] at hskip
        simpa [or_assoc] using hskip
      simp only [parseStep, hread, Bool.false_eq_true, if_false]
      cases hline : parseLine (trim line) with
      | none => simp [Adds, hline]
      | some e =>
        have hadds : Adds (.ok line) entry ↔ entry = e := by simp [Adds, hline, hskip, eq_comm]
        rw [hadds, or_comm]
        cases e <;> cases entry <;> simp [Has]

theorem has_foldl (reader : Lines) (list : Blocklist) (entry : BlocklistEntry) :
    (reader.foldl parseStep list).Has entry ↔ list.Has entry ∨ ∃ r ∈ reader, Adds r entry := by
  induction reader generalizing list with
  | nil => simp
  | cons r reader ih =>
    rw [List.foldl_cons, ih, has_parseStep, or_assoc]
    simp

/-- A parsed file holds exactly the entries its lines add. -/
theorem has_parse (reader : Lines) (name : Str) (entry : BlocklistEntry) :
    (parse reader name).Has entry ↔ ∃ r ∈ reader, Adds r entry := by
  rw [parse, has_foldl]
  cases entry <;> simp [Has]

theorem containsParent_iff (suffixes : Finset Str) (s : Str) :
    containsParent suffixes s = true ↔ ∃ d ∈ suffixes, '.' :: d <:+ s := by
  induction s with
  | nil => simp [containsParent]
  | cons c rest ih =>
    simp only [List.suffix_cons_iff, List.cons.injEq]
    by_cases hc : c = '.'
    · simp [containsParent, hc, ih, and_or_left, exists_or]
    · simp [containsParent, hc, ih, Ne.symm hc]

/-- The lookups amount to some stored entry covering the name. -/
theorem contains_iff (list : Blocklist) (hostname : Str) :
    list.contains hostname = true ↔
      (∃ d, list.Has (.exact d) ∧ toAsciiLowercase hostname = d) ∨
      ∃ d, list.Has (.domainAndSubs d) ∧ (toAsciiLowercase hostname = d ∨
        '.' :: d <:+ toAsciiLowercase hostname) := by
  simp only [contains, Bool.or_eq_true, decide_eq_true_eq, containsParent_iff, Has, or_assoc,
    exists_eq_right', and_or_left, exists_or]

theorem contains_parse_iff (reader : Lines) (name hostname : Str) :
    (parse reader name).contains hostname = true ↔
      ∃ line, Except.ok line ∈ reader ∧ Blocks (trim line) hostname := by
  simp only [contains_iff, has_parse, Adds, parseLine_eq_some_iff, Blocks]
  constructor
  · rintro (⟨d, ⟨r, hr, line, rfl, hskip, entry, hlists, he⟩, hd⟩ |
      ⟨d, ⟨r, hr, line, rfl, hskip, entry, hlists, he⟩, hd⟩)
    · cases entry with
      | exact d₀ =>
        cases he
        exact ⟨line, hr, hskip, _, hlists, hd⟩
      | domainAndSubs d₀ => cases he
    · cases entry with
      | exact d₀ => cases he
      | domainAndSubs d₀ =>
        cases he
        exact ⟨line, hr, hskip, _, hlists, hd⟩
  · rintro ⟨line, hr, hskip, entry, hlists, hmatch⟩
    cases entry with
    | exact d => exact .inl ⟨_, ⟨_, hr, line, rfl, hskip, _, hlists, rfl⟩, hmatch⟩
    | domainAndSubs d => exact .inr ⟨_, ⟨_, hr, line, rfl, hskip, _, hlists, rfl⟩, hmatch⟩

theorem contains_parse_append (reader reader' : Lines) (name name' hostname : Str) :
    (parse (reader ++ reader') name).contains hostname =
      ((parse reader name).contains hostname || (parse reader' name').contains hostname) := by
  rw [Bool.eq_iff_iff, Bool.or_eq_true, contains_parse_iff, contains_parse_iff,
    contains_parse_iff]
  simp only [List.mem_append, or_and_right, exists_or]

/-- The read results that add nothing. -/
inductive Inert : Except IoError Str → Prop where
  | unreadable (e : IoError) : Inert (.error e)
  | blank (line : Str) (h : trim line = []) : Inert (.ok line)
  | comment (line : Str) (h : (trim line).head? = some '#' ∨ (trim line).head? = some '!') :
      Inert (.ok line)
  | exception (line : Str) (h : "@@".toList <+: trim line) : Inert (.ok line)
  | unparseable (line : Str) (h : parseLine (trim line) = none) : Inert (.ok line)

theorem Inert.not_blocks {line : Str} (h : Inert (.ok line)) (hostname : Str) :
    ¬ Blocks (trim line) hostname := by
  rintro ⟨hskip, entry, hlists, _⟩
  cases h with
  | blank _ h => exact hskip (.inl h)
  | comment _ h => exact hskip (.inr h)
  | exception _ h =>
    cases hlists with
    | domainOnly d _ hexc => exact hexc h
    | hosts ip d more _ hexc => exact hexc h
    | adBlock before d after run hline =>
      obtain ⟨t, ht⟩ := h
      rw [hline] at ht
      cases ht
  | unparseable _ h =>
    have hsome := (parseLine_eq_some_iff _ _).mpr ⟨entry, hlists, rfl⟩
    rw [h] at hsome
    cases hsome

/-- The meaning of a file: some line blocks the name. Order, repetition and
inert lines do not matter, and files add up. -/
theorem contains_parse_meaning (reader : Lines) (name hostname : Str) :
    ((parse reader name).contains hostname = true ↔
      ∃ line, Except.ok line ∈ reader ∧ Blocks (trim line) hostname) ∧
    (∀ reader' : Lines, (∀ r, r ∈ reader' ↔ r ∈ reader) →
      (parse reader' name).contains hostname = (parse reader name).contains hostname) ∧
    (∀ before r after, reader = before ++ r :: after → Inert r →
      (parse (before ++ after) name).contains hostname =
        (parse reader name).contains hostname) ∧
    (∀ (reader' : Lines) (name' : Str), (parse (reader ++ reader') name).contains hostname =
      ((parse reader name).contains hostname || (parse reader' name').contains hostname)) := by
  refine ⟨contains_parse_iff reader name hostname, ?_, ?_, ?_⟩
  · intro reader' hmem
    rw [Bool.eq_iff_iff, contains_parse_iff, contains_parse_iff]
    simp only [hmem]
  · rintro before r after rfl hinert
    rw [Bool.eq_iff_iff, contains_parse_iff, contains_parse_iff]
    constructor
    · rintro ⟨line, hmem, hblocks⟩
      refine ⟨line, ?_, hblocks⟩
      rcases List.mem_append.mp hmem with h | h <;> simp [h]
    · rintro ⟨line, hmem, hblocks⟩
      refine ⟨line, ?_, hblocks⟩
      rcases List.mem_append.mp hmem with h | h
      · simp [h]
      · rcases List.mem_cons.mp h with h | h
        · rw [← h] at hinert
          exact absurd hblocks (hinert.not_blocks hostname)
        · simp [h]
  · intro reader' name'
    exact contains_parse_append reader reader' name name' hostname

theorem contains_parse_meaning_reader :
    (parse [.ok "# ads".toList, .ok "||Ads.Test^".toList] "ads".toList).contains
      "sub.ads.test".toList = true ∧
    (parse [.ok "||Ads.Test^".toList, .ok "# ads".toList, .ok "# ads".toList]
      "ads".toList).contains "sub.ads.test".toList = true ∧
    (parse [.ok "||Ads.Test^".toList] "ads".toList).contains "sub.ads.test".toList = true := by
  obtain ⟨hmeaning, hsame, hdrop, _⟩ := contains_parse_meaning
    [.ok "# ads".toList, .ok "||Ads.Test^".toList] "ads".toList "sub.ads.test".toList
  have hlists : Lists "||Ads.Test^".toList (.domainAndSubs "Ads.Test".toList) :=
    .adBlock [] "Ads.Test".toList [] "^".toList rfl (by simp) (by simp) (by simp) (by decide)
  have hblocks : Blocks (trim "||Ads.Test^".toList) "sub.ads.test".toList :=
    ⟨by unfold Skipped; decide, _, hlists, .inr (by decide)⟩
  have hcontains := hmeaning.mpr ⟨"||Ads.Test^".toList, by simp, hblocks⟩
  have hmem : ∀ a b r : Except IoError Str, r ∈ [b, a, a] ↔ r ∈ [a, b] := by simp [or_comm]
  refine ⟨hcontains, ?_, ?_⟩
  · rw [hsame _ (hmem _ _), hcontains]
  · rw [← hcontains]
    exact hdrop [] (.ok "# ads".toList) [.ok "||Ads.Test^".toList] rfl (.comment _ (by decide))

end Blocklist

end Deezns
