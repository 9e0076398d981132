import Deezns.Denials
import Deezns.JudgedNames

/-!
# The front-ends agree

One name reaches the policy as a list of labels, as a key closed by a NUL, or as
a string, in any case and with or without a dot at the end. All of these have
one canonical form, so a caller is denied the name on all ways or on none.
-/
namespace Deezns

open Octets (Bytes NativeEndian)
open Utf8 (Str encode)
open Text

/-- A host name, as its labels in text. -/
structure Name where
  labels : List Str
  isLabel : ∀ s ∈ labels, s ≠ [] ∧ '.' ∉ s ∧ '\x00' ∉ s ∧ byteLen s ≤ 63
  /-- With the length of each label and the zero at the end. -/
  fits : (labels.map (fun s => byteLen s + 1)).sum + 1 ≤ 255

namespace Name

/-- The name with dots between its labels; the root has none. -/
def dotted (name : Name) : Str := ['.'].intercalate name.labels

/-- A spelling of the name, in any case, with or without a dot at the end. -/
def SpelledAs (name : Name) (hostname : Str) : Prop :=
  toAsciiLowercase hostname = toAsciiLowercase name.dotted ++ ".".toList ∨
    name.labels ≠ [] ∧ toAsciiLowercase hostname = toAsciiLowercase name.dotted

theorem SpelledAs.ne_nil {name : Name} {hostname : Str} (h : name.SpelledAs hostname) :
    hostname ≠ [] := by
  rw [ne_eq, ← toAsciiLowercase_eq_nil_iff]
  rcases h with h | ⟨hne, h⟩
  · simp [h]
  · obtain ⟨s, labels, hlabels⟩ := List.exists_cons_of_ne_nil hne
    have hs := (name.isLabel s (by simp [hlabels])).1
    rw [h, toAsciiLowercase_eq_nil_iff, dotted, hlabels]
    exact intercalate_ne_nil hs labels

/-- A spelling has the canonical form of the name. -/
theorem SpelledAs.canonicalHostname_eq {name : Name} {hostname : Str}
    (h : name.SpelledAs hostname) :
    canonicalHostname hostname = canonicalHostname name.dotted := by
  rw [canonicalHostname_eq_iff]
  rcases h with h | ⟨_, h⟩
  · rw [h]
    exact List.rdropWhile_concat_pos _ _ _ rfl
  · rw [h]

end Name

namespace Dns

/-- A query about a name, as any client may send it. -/
structure Encodes (raw : Bytes) (name : Name) : Prop where
  isQuery : ∃ flags, (raw.drop 2).take 2 = toBe16 flags ∧ flags &&& flagQr = 0
  oneQuestion : (raw.drop 4).take 2 = toBe16 1
  question : ∃ qtype qclass rest, raw.drop headerLen =
    name.labels.flatMap (fun s => UInt8.ofNat (byteLen s) :: encode s) ++
      0 :: (toBe16 qtype ++ toBe16 qclass ++ rest)

/-- Text that is short enough is a label. -/
theorem exists_label {s : Str} (hne : s ≠ []) (hle : byteLen s ≤ 63) :
    ∃ l : Label, l.octets = encode s := by
  refine ⟨⟨encode s, ?_, hle⟩, rfl⟩
  obtain ⟨c, s, rfl⟩ := List.exists_cons_of_ne_nil hne
  rw [Utf8.encode_cons, List.length_append, String.length_utf8EncodeChar]
  have hpos := c.utf8Size_pos
  omega

theorem exists_labels (labels : List Str) (h : ∀ s ∈ labels, s ≠ [] ∧ byteLen s ≤ 63) :
    ∃ wire : List Label, wireLabels wire =
        labels.flatMap (fun s => UInt8.ofNat (byteLen s) :: encode s) ∧
      wire.map Label.text = labels.map toAsciiLowercase := by
  induction labels with
  | nil => exact ⟨[], rfl, rfl⟩
  | cons s labels ih =>
    obtain ⟨wire, hwire, htexts⟩ := ih (fun s hs => h s (List.mem_cons_of_mem _ hs))
    obtain ⟨l, hl⟩ := exists_label (h s (by simp)).1 (h s (by simp)).2
    refine ⟨l :: wire, ?_, ?_⟩
    · rw [wireLabels_cons, hwire, List.flatMap_cons, Label.wire, hl]
      rfl
    · rw [List.map_cons, List.map_cons, htexts, Label.text, hl, Utf8.decodeLossy_encode]

theorem exists_toBe16 {bs : Bytes} (h : bs.length = 2) : ∃ v, bs = toBe16 v := by
  match bs, h with
  | [hi, lo], _ =>
    have hlo : be16 [hi, lo] 0 = some (UInt16.ofNat (Octets.fromBeBytes [hi, lo])) := rfl
    exact ⟨_, (be16_eq_some_iff [hi, lo] 0 _).mp hlo⟩

/-- A query about a name is accepted, and read as its dotted form. -/
theorem Encodes.parse_eq_ok {raw : Bytes} {name : Name} (h : Encodes raw name) :
    ∃ query, Query.parse raw = .ok query ∧
      query.question.name = ['.'].intercalate (name.labels.map toAsciiLowercase) := by
  obtain ⟨flags, hflags, hqr⟩ := h.isQuery
  obtain ⟨qtype, qclass, rest, hquestion⟩ := h.question
  obtain ⟨wire, hwire, htexts⟩ := exists_labels name.labels
    (fun s hs => ⟨(name.isLabel s hs).1, (name.isLabel s hs).2.2.2⟩)
  have hheader : headerLen ≤ raw.length := by
    have hlength := congrArg List.length hquestion
    rw [List.length_drop, List.length_append, List.length_cons] at hlength
    omega
  have hlength : (raw.take 2).length = 2 := List.length_take_of_le (by
    simp only [headerLen] at hheader
    omega)
  obtain ⟨id, hid⟩ := exists_toBe16 hlength
  have hfits : (wireLabels wire).length ≤ 255 := by
    have hlength : (wireLabels wire).length = (name.labels.map (fun s => byteLen s + 1)).sum := by
      rw [hwire, List.length_flatMap]
      rfl
    have := name.fits
    omega
  have hreads : Query.Reads ⟨id, flags, ⟨dotted wire, qtype, qclass,
      headerLen + (wireLabels wire).length + 5⟩, raw⟩ wire :=
    ⟨hheader, hid, hflags, hqr, h.oneQuestion, ⟨rest, by rw [hwire]; exact hquestion⟩, hfits, rfl,
      rfl⟩
  refine ⟨_, Query.parse_of_reads hreads, ?_⟩
  rw [← htexts]
  rfl

theorem Encodes.canonicalHostname_eq {raw : Bytes} {name : Name} {query : Query}
    (h : Encodes raw name) (hparse : Query.parse raw = .ok query) :
    canonicalHostname query.question.hostname = canonicalHostname name.dotted := by
  obtain ⟨query', hparse', hname⟩ := h.parse_eq_ok
  cases hparse.symm.trans hparse'
  rw [canonicalHostname_hostname, canonicalHostname_eq_iff, hname, ← toAsciiLowercase_intercalate,
    toAsciiLowercase_idem]
  rfl

end Dns

variable {cel : Cel}

/-- The name behind the rule of the test policy. -/
def Name.blocked : Name where
  labels := ["blocked".toList, "test".toList]
  isLabel := by decide
  fits := by decide

end Deezns
