import Deezns.BlocklistMeaning

/-!
# Lines of a hosts file

A line of a hosts file is an address, the names it goes with, and perhaps a
comment. `parseLine` looks at the second word alone: the names after it are
passed over, and a comment that starts right behind the only name spoils it.
-/
namespace Deezns

open Utf8 (Str)
open Text

namespace Blocklist

/-- What stands before the comment. -/
def uncommented (line : Str) : Str := line.takeWhile (fun c => c != '#')

/-- The texts of IP addresses, and more: a decimal digit comes first in an IPv4
address; an IPv6 address holds a colon and starts with a hexadecimal digit or
with a colon. -/
def IsAddressText (ip : Str) : Prop :=
  ∃ c rest, ip = c :: rest ∧ (c.isDigit = true ∨
    (c.isAlphanum = true ∨ c = ':') ∧ ':' ∈ ip)

/-- A line with an address and names before the comment. -/
structure HostsEntry (line ip : Str) (names : List Str) : Prop where
  words : splitWhitespace (uncommented line) = ip :: names
  address : IsAddressText ip

/-- The comment, if there is one, does not start right behind a word. -/
def CommentApart (line : Str) : Prop :=
  uncommented line = line ∨ ∀ c, (uncommented line).getLast? = some c → isWhitespace c = true

theorem uncommented_split (line : Str) : uncommented line = line ∨
    ∃ comment, line = uncommented line ++ '#' :: comment := by
  have hsplit := List.takeWhile_append_dropWhile (p := fun c => c != '#') (l := line)
  cases hrest : line.dropWhile (fun c => c != '#') with
  | nil =>
    rw [hrest, List.append_nil] at hsplit
    exact .inl hsplit
  | cons c comment =>
    have hhead := List.head?_dropWhile_not (fun c => c != '#') line
    have hc : c = '#' := by simpa [hrest] using hhead
    rw [hrest, hc] at hsplit
    exact .inr ⟨comment, hsplit.symm⟩

/-- An address starts with none of the marks by which a line is told apart. -/
theorem IsAddressText.head? {ip : Str} (h : IsAddressText ip) :
    ∃ c, ip.head? = some c ∧ c ∉ ['#', '!', '|', '@'] := by
  obtain ⟨c, rest, rfl, hc⟩ := h
  have hfirst : c.isDigit = true ∨ c.isAlphanum = true ∨ c = ':' := hc.imp id And.left
  refine ⟨c, rfl, ?_⟩
  simp only [List.mem_cons, List.not_mem_nil, or_false]
  rintro (rfl | rfl | rfl | rfl) <;> (revert hfirst; decide)

theorem IsAddressText.looksLikeIp {ip : Str} (h : IsAddressText ip) : looksLikeIp ip = true := by
  obtain ⟨c, rest, rfl, hdigit | ⟨_, hcolon⟩⟩ := h
  · simp [Blocklist.looksLikeIp, hdigit]
  · simp only [Blocklist.looksLikeIp, Bool.or_eq_true, List.contains_iff_mem]
    exact .inr hcolon

/-- A comment that stands apart adds words behind those of the line. -/
theorem words_of_commentApart {line : Str} (h : CommentApart line) :
    ∃ more, splitWhitespace line = splitWhitespace (uncommented line) ++ more := by
  have hwhole : uncommented line = line →
      ∃ more, splitWhitespace line = splitWhitespace (uncommented line) ++ more :=
    fun hline => ⟨[], by rw [hline, List.append_nil]⟩
  rcases h with hline | hlast
  · exact hwhole hline
  · rcases uncommented_split line with hline | ⟨comment, hline⟩
    · exact hwhole hline
    · have hsplit := splitWhitespace_append_of_getLast _ ('#' :: comment) hlast
      rw [← hline] at hsplit
      exact ⟨_, hsplit⟩

/-- Any other comment goes into the last word. -/
theorem words_of_not_commentApart {line : Str} (h : ¬ CommentApart line) :
    ∃ words word rest more, splitWhitespace (uncommented line) = words ++ [word] ∧
      splitWhitespace line = words ++ (word ++ '#' :: rest) :: more := by
  obtain ⟨hcut, hlast⟩ := not_or.mp h
  simp only [not_forall, Bool.not_eq_true, exists_prop] at hlast
  obtain ⟨c, hc, hnot⟩ := hlast
  obtain ⟨comment, hline⟩ := (uncommented_split line).resolve_left hcut
  obtain ⟨start, word, htext, hne, hword, hstart⟩ := exists_last_word _ c hc hnot
  have hmark : ∀ x ∈ word ++ ['#'], isWhitespace x = false := by
    intro x hx
    rcases List.mem_append.mp hx with hx | hx
    · exact hword x hx
    · rw [List.mem_singleton.mp hx]
      decide
  obtain ⟨rest, more, hrest⟩ := splitWhitespace_word_append _ comment (by simp) hmark
  refine ⟨splitWhitespace start, word, rest, more, ?_, ?_⟩
  · rw [htext, splitWhitespace_append_of_getLast _ _ hstart, splitWhitespace_word word hne hword]
  · rw [hline, htext, List.append_assoc, splitWhitespace_append_of_getLast _ _ hstart]
    simpa using hrest

/-- The second word of the line is its first name, unless a comment starts right
behind the only name. -/
theorem HostsEntry.second_word {line ip first : Str} {more : List Str}
    (h : HostsEntry line ip (first :: more)) :
    (∃ others, (more ≠ [] ∨ CommentApart line) ∧ splitWhitespace line = ip :: first :: others) ∨
      ∃ rest others, (more = [] ∧ ¬ CommentApart line) ∧
        splitWhitespace line = ip :: (first ++ '#' :: rest) :: others := by
  by_cases hapart : CommentApart line
  · obtain ⟨others, hwords⟩ := words_of_commentApart hapart
    rw [h.words] at hwords
    exact .inl ⟨_, .inr hapart, hwords⟩
  · obtain ⟨words, word, rest, others, htext, hwords⟩ := words_of_not_commentApart hapart
    rw [h.words] at htext
    cases words with
    | nil => cases htext
    | cons ip' words =>
      injection htext with hip htext
      subst hip
      cases words with
      | nil =>
        injection htext with hfirst hmore
        subst hfirst
        exact .inr ⟨rest, others, ⟨hmore, hapart⟩, hwords⟩
      | cons first' words =>
        injection htext with hfirst hmore
        subst hfirst
        refine .inl ⟨_, .inl ?_, hwords⟩
        rw [hmore]
        simp

/-- What the words of a line with an address decide about it. -/
theorem blocks_of_words {line ip d : Str} {others : List Str} (hip : IsAddressText ip)
    (hwords : splitWhitespace line = ip :: d :: others) (hostname : Str) :
    Blocks (trim line) hostname ↔
      isValidDomain d = true ∧ toAsciiLowercase hostname = toAsciiLowercase d := by
  have hhead := head?_trim_eq hwords
  rw [← splitWhitespace_trim] at hwords
  obtain ⟨c, hc, hplain⟩ := hip.head?
  rw [hc] at hhead
  simp only [List.mem_cons, List.not_mem_nil, or_false, not_or] at hplain
  have hstart : ∀ (x : Char) (pre : Str), x ≠ c → ¬ x :: pre <+: trim line := by
    rintro x pre hx ⟨t, ht⟩
    rw [← ht] at hhead
    injection hhead with hhead
    exact hx hhead
  have hskip : ¬ Skipped (trim line) := by
    simp only [Skipped, hhead, Option.some.injEq, not_or]
    refine ⟨?_, hplain.1, hplain.2.1⟩
    intro hnil
    rw [hnil] at hhead
    cases hhead
  constructor
  · rintro ⟨_, entry, hlists, hmatch⟩
    cases hlists with
    | domainOnly d' _ _ htokens =>
      rw [hwords] at htokens
      cases htokens
    | hosts ip' d' more _ _ htokens _ hd =>
      rw [hwords] at htokens
      cases htokens
      exact ⟨hd, hmatch⟩
    | adBlock before d' after run hline =>
      exact absurd (adBlock_starts_with_bars hline) (hstart _ _ (Ne.symm hplain.2.2.1))
  · rintro ⟨hd, hmatch⟩
    exact ⟨hskip, .exact d, .hosts ip d others (hstart _ _ (Ne.symm hplain.2.2.1))
      (hstart _ _ (Ne.symm hplain.2.2.2)) hwords hip.looksLikeIp hd, hmatch⟩

theorem HostsEntry.blocks_iff {line ip first : Str} {more : List Str}
    (h : HostsEntry line ip (first :: more)) (hostname : Str) :
    Blocks (trim line) hostname ↔ (more ≠ [] ∨ CommentApart line) ∧
      isValidDomain first = true ∧ toAsciiLowercase hostname = toAsciiLowercase first := by
  rcases h.second_word with ⟨others, hkept, hwords⟩ | ⟨rest, others, ⟨hmore, hapart⟩, hwords⟩
  · rw [blocks_of_words h.address hwords]
    exact (and_iff_right hkept).symm
  · rw [blocks_of_words h.address hwords]
    constructor
    · rintro ⟨hd, _⟩
      have hmark := ((isValidDomain_iff _).mp hd).2.2.2 '#' (by simp)
      exact absurd hmark (by decide)
    · rintro ⟨hkept | hkept, _⟩
      · exact absurd hmore hkept
      · exact absurd hkept hapart

theorem contains_parse_insert (before after : Lines) (line name hostname : Str) :
    (parse (before ++ .ok line :: after) name).contains hostname = true ↔
      Blocks (trim line) hostname ∨
        ∃ line', .ok line' ∈ before ++ after ∧ Blocks (trim line') hostname := by
  have hmem : ∀ line', Except.ok line' ∈ before ++ .ok line :: after ↔
      line' = line ∨ .ok line' ∈ before ++ after := by
    intro line'
    simp only [List.mem_append, List.mem_cons, Except.ok.injEq]
    exact or_left_comm
  simp only [contains_parse_iff, hmem, or_and_right, exists_or, exists_eq_left]

/-- A file keeps the names of a line as far as they are the first one, with no
comment right behind it, or other lines block them; the comment adds nothing. -/
theorem hosts_names_kept_iff (before after : Lines) (line ip first : Str) (more : List Str)
    (name : Str) (h : HostsEntry line ip (first :: more)) :
    ((∀ d ∈ first :: more, isValidDomain d = true →
        (parse (before ++ .ok line :: after) name).contains d = true) ∧
      ∀ hostname, (parse (before ++ .ok line :: after) name).contains hostname = true →
        (parse (before ++ after) name).contains hostname = true ∨
        ∃ d ∈ first :: more, isValidDomain d = true ∧
          toAsciiLowercase hostname = toAsciiLowercase d) ↔
    ∀ d ∈ first :: more, isValidDomain d = true →
      toAsciiLowercase d = toAsciiLowercase first ∧ (more ≠ [] ∨ CommentApart line) ∨
      ∃ line', .ok line' ∈ before ++ after ∧ Blocks (trim line') d := by
  simp only [contains_parse_insert, h.blocks_iff]
  simp only [contains_parse_iff]
  constructor
  · rintro ⟨hkept, _⟩ d hd hvalid
    rcases hkept d hd hvalid with ⟨hsecond, _, hcase⟩ | hother
    · exact .inl ⟨hcase, hsecond⟩
    · exact .inr hother
  · intro hnames
    refine ⟨?_, ?_⟩
    · intro d hd hvalid
      rcases hnames d hd hvalid with ⟨hcase, hsecond⟩ | hother
      · have hfirst : isValidDomain first = true := by
          rw [← isValidDomain_toAsciiLowercase, ← hcase, isValidDomain_toAsciiLowercase, hvalid]
        exact .inl ⟨hsecond, hfirst, hcase⟩
      · exact .inr hother
    · rintro hostname (⟨_, hfirst, hcase⟩ | hother)
      · exact .inr ⟨first, by simp, hfirst, hcase⟩
      · exact .inl hother

theorem hosts_names_kept_tracker :
    (parse [.ok "0.0.0.0 ads.test # c.test".toList] "l".toList).contains "ads.test".toList =
      true := by
  have hentry : HostsEntry "0.0.0.0 ads.test # c.test".toList "0.0.0.0".toList
      ["ads.test".toList] :=
    ⟨by decide, ⟨'0', _, rfl, .inl (by decide)⟩⟩
  have hlast : (uncommented "0.0.0.0 ads.test # c.test".toList).getLast? = some ' ' := by decide
  have hapart : CommentApart "0.0.0.0 ads.test # c.test".toList := by
    refine .inr (fun c hc => ?_)
    rw [hlast, Option.some.injEq] at hc
    rw [← hc]
    decide
  obtain ⟨hkept, _⟩ := (hosts_names_kept_iff [] [] _ _ _ [] "l".toList hentry).mpr (by
    intro d hd _
    rw [List.mem_singleton.mp hd]
    exact .inl ⟨rfl, .inr hapart⟩)
  exact hkept _ (by simp) (by decide)

/-- The second name of a line is lost, and so is a name with a comment right behind it. -/
theorem loses_hosts_names :
    HostsEntry "0.0.0.0 a.test b.test # c.test".toList "0.0.0.0".toList
      ["a.test".toList, "b.test".toList] ∧ isValidDomain "b.test".toList = true ∧
    (parse [.ok "0.0.0.0 a.test b.test # c.test".toList] "l".toList).contains "b.test".toList =
      false ∧
    HostsEntry "0.0.0.0 a.test#c.test".toList "0.0.0.0".toList ["a.test".toList] ∧
      isValidDomain "a.test".toList = true ∧
    (parse [.ok "0.0.0.0 a.test#c.test".toList] "l".toList).contains "a.test".toList = false := by
  have haddress : IsAddressText "0.0.0.0".toList := ⟨'0', _, rfl, .inl (by decide)⟩
  exact ⟨⟨by decide, haddress⟩, by decide, by decide, ⟨by decide, haddress⟩, by decide, by decide⟩

end Blocklist

end Deezns
