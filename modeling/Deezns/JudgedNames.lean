import Deezns.DnsReplies
import Deezns.PolicyLaws

/-!
# The name a question is judged by

The policy judges text: the labels of a question as far as they are UTF-8, in
lower case, joined with dots. Questions whose labels are UTF-8 without dots are
told apart by it exactly as DNS does; others can look alike.
-/
namespace Deezns.Dns

open Octets (Bytes)
open Utf8 (Str)
open Text

theorem canonicalHostname_hostname (question : Question) :
    canonicalHostname question.hostname = canonicalHostname question.name := by
  unfold Question.hostname
  split
  · next h =>
    rw [List.isEmpty_iff.mp h]
    rfl
  · rfl

theorem toAsciiLowercase_dotted (labels : List Label) :
    toAsciiLowercase (dotted labels) = dotted labels := by
  rw [dotted, toAsciiLowercase_intercalate, List.map_map]
  congr 1
  exact List.map_congr_left (fun l _ => toAsciiLowercase_idem _)

theorem Label.text_ne_nil (l : Label) : l.text ≠ [] := by
  have hoctets : l.octets ≠ [] := List.length_pos_iff.mp l.length_pos
  rw [text, ne_eq, toAsciiLowercase_eq_nil_iff]
  exact Utf8.decodeLossy_ne_nil hoctets

/-- A label without a dot is read as text without a dot. -/
theorem Label.isPiece_text (l : Label) (h : 0x2E ∉ l.octets) : IsPiece l.text := by
  refine ⟨l.text_ne_nil, ?_⟩
  intro hdot
  obtain ⟨c, hc, hlower⟩ := List.mem_map.mp hdot
  rw [toLower_eq_dot_iff] at hlower
  subst hlower
  rcases Utf8.mem_decodeLossyFuel _ _ _ hc with hreplacement | hbytes
  · exact absurd hreplacement (by decide)
  · exact h (hbytes 0x2E (by decide))

/-- What a front-end asks about is the name of a message it accepts. -/
theorem Frontend.parse_of_asked {cel : Cel} {front : Frontend cel} {upstream : Upstream}
    {proc : Option ProcFs} {raw : Bytes} {peer : SocketAddr} {transport : Transport}
    {server : SocketAddr} {hostname : Str} {caller : Caller}
    (h : .asked hostname caller ∈ (front.respond upstream proc raw peer transport server).trace) :
    ∃ query, Query.parse raw = .ok query ∧ hostname = query.question.hostname := by
  rw [← mem_questions_iff, questions_respond] at h
  split at h
  · cases h
  · next query hparse =>
    split at h
    · cases h
    · rw [List.mem_singleton, Prod.mk.injEq] at h
      exact ⟨query, hparse, h.1⟩

/-- The octets of a label are text without a dot. -/
def Label.IsPlain (l : Label) : Prop := (∃ s, l.octets = Utf8.encode s) ∧ 0x2E ∉ l.octets

/-- The same labels, up to the case of ASCII letters. -/
def SameName (labels labels' : List Label) : Prop :=
  labels.map (fun l => l.octets.map lowerByte) = labels'.map (fun l => l.octets.map lowerByte)

theorem Label.encode_text {l : Label} (h : l.IsPlain) :
    Utf8.encode l.text = l.octets.map lowerByte := by
  obtain ⟨⟨s, hs⟩, _⟩ := h
  rw [text, hs, Utf8.decodeLossy_encode, encode_toAsciiLowercase]

theorem canonicalHostname_eq_iff_dotted {raw raw' : Bytes} {query query' : Query}
    {labels labels' : List Label} (h : Query.parse raw = .ok query)
    (h' : Query.parse raw' = .ok query') (hnames : Names raw labels)
    (hnames' : Names raw' labels') :
    canonicalHostname query.question.hostname = canonicalHostname query'.question.hostname ↔
      trimEndMatches (· == '.') (dotted labels) = trimEndMatches (· == '.') (dotted labels') := by
  rw [canonicalHostname_hostname, canonicalHostname_hostname, canonicalHostname_eq_iff,
    (Query.reads_of_names h hnames).name, (Query.reads_of_names h' hnames').name,
    toAsciiLowercase_dotted, toAsciiLowercase_dotted]

theorem trimEndMatches_dotted {labels : List Label} (h : ∀ l ∈ labels, 0x2E ∉ l.octets) :
    trimEndMatches (· == '.') (dotted labels) = dotted labels := by
  have hlast := getLast?_intercalate_ne_dot (labels.map Label.text) (by
    intro t ht
    obtain ⟨l, hl, rfl⟩ := List.mem_map.mp ht
    exact l.isPiece_text (h l hl))
  have hself := (trimDots_eq_self_iff (dotted labels)).mpr hlast
  rwa [toAsciiLowercase_dotted] at hself

/-- Without dots in labels, the dotted text tells the texts of the labels. -/
theorem dotted_inj {labels labels' : List Label} (h : ∀ l ∈ labels, 0x2E ∉ l.octets)
    (h' : ∀ l ∈ labels', 0x2E ∉ l.octets) (heq : dotted labels = dotted labels') :
    labels.map Label.text = labels'.map Label.text := by
  refine intercalate_inj ?_ ?_ heq
  · intro t ht
    obtain ⟨l, hl, rfl⟩ := List.mem_map.mp ht
    exact l.isPiece_text (h l hl)
  · intro t ht
    obtain ⟨l, hl, rfl⟩ := List.mem_map.mp ht
    exact l.isPiece_text (h' l hl)

theorem sameName_of_texts {labels labels' : List Label} (h : ∀ l ∈ labels, l.IsPlain)
    (h' : ∀ l ∈ labels', l.IsPlain)
    (heq : labels.map Label.text = labels'.map Label.text) : SameName labels labels' := by
  have hbytes : ∀ labels : List Label, (∀ l ∈ labels, l.IsPlain) →
      labels.map (fun l => l.octets.map lowerByte) = (labels.map Label.text).map Utf8.encode := by
    intro labels h
    rw [List.map_map]
    exact List.map_congr_left (fun l hl => (Label.encode_text (h l hl)).symm)
  rw [SameName, hbytes labels h, hbytes labels' h', heq]

/-- Two questions are judged as one exactly if they are the same dotted text, up
to dots at the end. With no dots in labels their labels are read alike; if the
labels are also UTF-8, they are the same but for case. -/
theorem judged_as_one {cel : Cel} {front front' : Frontend cel} {upstream upstream' : Upstream}
    {proc proc' : Option ProcFs} {raw raw' : Bytes} {peer peer' : SocketAddr}
    {transport transport' : Transport} {server server' : SocketAddr} {hostname hostname' : Str}
    {caller caller' : Caller} {labels labels' : List Label}
    (h : .asked hostname caller ∈ (front.respond upstream proc raw peer transport server).trace)
    (h' : .asked hostname' caller' ∈
      (front'.respond upstream' proc' raw' peer' transport' server').trace)
    (hnames : Names raw labels) (hnames' : Names raw' labels') :
    (canonicalHostname hostname = canonicalHostname hostname' ↔
      trimEndMatches (· == '.') (dotted labels) = trimEndMatches (· == '.') (dotted labels')) ∧
    ((∀ l ∈ labels, 0x2E ∉ l.octets) → (∀ l ∈ labels', 0x2E ∉ l.octets) →
      canonicalHostname hostname = canonicalHostname hostname' →
      labels.map Label.text = labels'.map Label.text) ∧
    ((∀ l ∈ labels, l.IsPlain) → (∀ l ∈ labels', l.IsPlain) →
      canonicalHostname hostname = canonicalHostname hostname' → SameName labels labels') := by
  obtain ⟨query, hparse, rfl⟩ := Frontend.parse_of_asked h
  obtain ⟨query', hparse', rfl⟩ := Frontend.parse_of_asked h'
  have hiff := canonicalHostname_eq_iff_dotted hparse hparse' hnames hnames'
  have htexts : (∀ l ∈ labels, 0x2E ∉ l.octets) → (∀ l ∈ labels', 0x2E ∉ l.octets) →
      canonicalHostname query.question.hostname = canonicalHostname query'.question.hostname →
      labels.map Label.text = labels'.map Label.text := by
    intro hdots hdots' heq
    rw [hiff, trimEndMatches_dotted hdots, trimEndMatches_dotted hdots'] at heq
    exact dotted_inj hdots hdots' heq
  refine ⟨hiff, htexts, ?_⟩
  intro hplain hplain' heq
  exact sameName_of_texts hplain hplain'
    (htexts (fun l hl => (hplain l hl).2) (fun l hl => (hplain' l hl).2) heq)

/-- A query for the address of a name. -/
def testMessage (labels : List Label) : Bytes :=
  [0, 7, 1, 0, 0, 1, 0, 0, 0, 0, 0, 0] ++ (wireLabels labels ++ 0 :: [0, 1, 0, 1])

/-- What the small policy is asked for a message, without looking at its sender. -/
def testTrace (raw : Bytes) : List Event :=
  (Frontend.testFront.respond ⟨.stall, .connectStall⟩ none raw ⟨loopback, 5000⟩ .udp
    ⟨loopback, 53⟩).trace

/-- `ads.test`. -/
def adsTest : List Label :=
  [⟨[0x61, 0x64, 0x73], by decide, by decide⟩, ⟨[0x74, 0x65, 0x73, 0x74], by decide, by decide⟩]

/-- `ADS.Test`. -/
def adsTestMixed : List Label :=
  [⟨[0x41, 0x44, 0x53], by decide, by decide⟩, ⟨[0x54, 0x65, 0x73, 0x74], by decide, by decide⟩]

theorem judged_as_one_mixed_case : SameName adsTest adsTestMixed := by
  have hplain : ∀ l ∈ adsTest, l.IsPlain := by
    simp only [adsTest, List.forall_mem_cons]
    exact ⟨⟨⟨"ads".toList, by decide⟩, by decide⟩, ⟨⟨"test".toList, by decide⟩, by decide⟩, by simp⟩
  have hplain' : ∀ l ∈ adsTestMixed, l.IsPlain := by
    simp only [adsTestMixed, List.forall_mem_cons]
    exact ⟨⟨⟨"ADS".toList, by decide⟩, by decide⟩, ⟨⟨"Test".toList, by decide⟩, by decide⟩, by simp⟩
  have hasked : .asked "ads.test".toList .unknown ∈ testTrace (testMessage adsTest) := by decide
  -- the second message has two bytes behind its question
  have hasked' : .asked "ads.test".toList .unknown ∈
      testTrace (testMessage adsTestMixed ++ [9, 9]) := by decide
  exact (judged_as_one hasked hasked' ⟨_, rfl⟩ ⟨_, rfl⟩).2.2 hplain hplain' rfl

/-- A label of one byte. -/
def Label.single (b : UInt8) : Label := ⟨[b], by simp, by simp⟩

/-- With a dot inside a label, or with bytes that are no text, two names are one. -/
theorem judged_as_one_differs :
    (.asked "a.b".toList .unknown ∈
        testTrace (testMessage [⟨[0x61, 0x2E, 0x62], by decide, by decide⟩]) ∧
      .asked "a.b".toList .unknown ∈ testTrace (testMessage [.single 0x61, .single 0x62]) ∧
      ¬ SameName [⟨[0x61, 0x2E, 0x62], by decide, by decide⟩] [.single 0x61, .single 0x62]) ∧
    (.asked ['\uFFFD'] .unknown ∈ testTrace (testMessage [.single 0xFE]) ∧
      .asked ['\uFFFD'] .unknown ∈ testTrace (testMessage [.single 0xFF]) ∧
      ¬ SameName [.single 0xFE] [.single 0xFF]) := by
  simp only [SameName]
  decide

end Deezns.Dns
