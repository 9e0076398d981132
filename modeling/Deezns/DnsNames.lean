import Deezns.DnsFrontend

/-!
# Names in queries

A name is a list of labels, each of one to 63 bytes behind its length, closed
by a zero. The parser accepts exactly the queries whose name is at most 255
bytes without the zero, and reads its labels as lower-case text.
-/
namespace Deezns.Dns

open Octets (Bytes toBeBytes fromBeBytes)
open Utf8 (Str)
open Text

structure Label where
  octets : Bytes
  length_pos : 0 < octets.length
  length_le : octets.length ≤ 63
  deriving DecidableEq, Repr

/-- A label behind its length. -/
def Label.wire (l : Label) : Bytes := UInt8.ofNat l.octets.length :: l.octets

/-- The text the parser makes of a label. -/
def Label.text (l : Label) : Str := toAsciiLowercase (Utf8.decodeLossy l.octets)

/-- The labels of a name, without the zero that closes it. -/
def wireLabels (labels : List Label) : Bytes := labels.flatMap Label.wire

@[simp] theorem wireLabels_nil : wireLabels [] = [] := rfl
@[simp] theorem wireLabels_cons (l : Label) (labels : List Label) :
    wireLabels (l :: labels) = l.wire ++ wireLabels labels := rfl
@[simp] theorem Label.length_wire (l : Label) : l.wire.length = l.octets.length + 1 := rfl

theorem length_le_wireLabels (labels : List Label) :
    labels.length ≤ (wireLabels labels).length := by
  induction labels with
  | nil => exact le_rfl
  | cons l labels ih =>
    rw [wireLabels_cons, List.length_append, Label.length_wire, List.length_cons]
    omega

theorem Label.toNat_length (l : Label) : (UInt8.ofNat l.octets.length).toNat = l.octets.length := by
  have h := l.length_le
  rw [UInt8.toNat_ofNat']
  omega

/-- The dotted form of a name; the root has none. -/
def dotted (labels : List Label) : Str := ['.'].intercalate (labels.map Label.text)

theorem parseName_root (before rest : Bytes) (fuel : Nat) (labels : List Str) :
    parseName (before ++ 0 :: rest) (fuel + 1) before.length labels =
      .ok (labels, before.length + 1) := by
  simp [parseName]

/-- The loop reads a label that fits and goes on behind it. -/
theorem parseName_label (before rest : Bytes) (l : Label) (fuel : Nat) (labels : List Str)
    (hfit : (before ++ l.wire).length ≤ headerLen + 255) :
    parseName (before ++ l.wire ++ rest) (fuel + 1) before.length labels =
      parseName (before ++ l.wire ++ rest) fuel (before ++ l.wire).length (labels ++ [l.text]) := by
  have hhead : (before ++ l.wire ++ rest)[before.length]? =
      some (UInt8.ofNat l.octets.length) := by
    simp [Label.wire]
  have hlabel : ((before ++ l.wire ++ rest).drop (before.length + 1)).take l.octets.length =
      l.octets := by
    have hdrop : (before ++ l.wire ++ rest).drop (before.length + 1) = l.octets ++ rest := by
      rw [← List.drop_drop, List.append_assoc, List.drop_left]
      rfl
    rw [hdrop, List.take_left]
  have hpos := l.length_pos
  have hle := l.length_le
  rw [List.length_append, Label.length_wire] at hfit
  simp only [parseName, hhead, l.toNat_length, hlabel, List.length_append, Label.length_wire]
  rw [if_neg (by omega), if_neg (by omega), if_neg (by omega), if_neg (by omega), Label.text]
  congr 1
  omega

/-- It goes on only behind a label, and ends only at the closing zero. -/
theorem parseName_ok_cases {before tail : Bytes} {fuel : Nat} {labels : List Str}
    {result : List Str × Nat}
    (h : parseName (before ++ tail) fuel before.length labels = .ok result)
    (hhead : headerLen ≤ before.length) :
    (∃ rest, tail = 0 :: rest) ∨
      ∃ l rest, tail = Label.wire l ++ rest ∧ (before ++ l.wire).length ≤ headerLen + 255 := by
  cases fuel with
  | zero => cases h
  | succ fuel =>
    cases tail with
    | nil => simp [parseName] at h
    | cons b tail =>
      have hfirst : (before ++ b :: tail)[before.length]? = some b := by simp
      simp only [parseName, hfirst, List.length_append, List.length_cons] at h
      split at h
      · next hzero =>
        have hb : b = 0 := UInt8.toNat_inj.mp hzero
        exact .inl ⟨tail, by rw [hb]⟩
      split at h
      · cases h
      split at h
      · cases h
      split at h
      · cases h
      next hzero h63 hlen hfit =>
      refine .inr ⟨⟨tail.take b.toNat, ?_, ?_⟩, tail.drop b.toNat, ?_, ?_⟩
      · rw [List.length_take]
        omega
      · rw [List.length_take]
        omega
      · have hb : UInt8.ofNat (min b.toNat tail.length) = b := by
          rw [Nat.min_eq_left (by omega), UInt8.ofNat_toNat]
        simp [Label.wire, hb]
      · simp only [List.length_append, Label.length_wire, List.length_take]
        omega

/-- A name that fits is read, whatever follows it. -/
theorem parseName_wire (before rest : Bytes) (labels : List Label) (fuel : Nat)
    (texts : List Str) (hfuel : labels.length < fuel)
    (hfit : before.length + (wireLabels labels).length ≤ headerLen + 255) :
    parseName (before ++ (wireLabels labels ++ 0 :: rest)) fuel before.length texts =
      .ok (texts ++ labels.map Label.text, before.length + (wireLabels labels).length + 1) := by
  induction labels generalizing before fuel texts with
  | nil =>
    cases fuel with
    | zero => exact absurd hfuel (Nat.not_lt_zero _)
    | succ fuel => simpa using parseName_root before rest fuel texts
  | cons l labels ih =>
    cases fuel with
    | zero => exact absurd hfuel (Nat.not_lt_zero _)
    | succ fuel =>
      rw [wireLabels_cons, List.length_append] at hfit
      rw [List.length_cons] at hfuel
      have hl : (before ++ l.wire).length ≤ headerLen + 255 := by
        rw [List.length_append]
        omega
      rw [wireLabels_cons, List.append_assoc, ← List.append_assoc,
        parseName_label before _ l fuel texts hl,
        ih (before ++ l.wire) fuel (texts ++ [l.text]) (by omega)
          (by rw [List.length_append]; omega)]
      simp [Nat.add_assoc]

/-- And only such names are. -/
theorem eq_wire_of_parseName {before tail : Bytes} {fuel : Nat} {texts : List Str}
    {result : List Str × Nat}
    (h : parseName (before ++ tail) fuel before.length texts = .ok result)
    (hhead : headerLen ≤ before.length) (hbefore : before.length ≤ headerLen + 255) :
    ∃ labels rest, tail = wireLabels labels ++ 0 :: rest ∧
      before.length + (wireLabels labels).length ≤ headerLen + 255 ∧
      result =
        (texts ++ labels.map Label.text, before.length + (wireLabels labels).length + 1) := by
  induction fuel generalizing before tail texts with
  | zero => cases h
  | succ fuel ih =>
    rcases parseName_ok_cases h hhead with ⟨rest, rfl⟩ | ⟨l, rest, rfl, hfit⟩
    · rw [parseName_root] at h
      cases h
      exact ⟨[], rest, by simp, by simpa using hbefore, by simp⟩
    · rw [← List.append_assoc, parseName_label before rest l fuel texts hfit] at h
      obtain ⟨labels, rest', rfl, hfit', rfl⟩ := ih h
        (by rw [List.length_append]; omega) hfit
      refine ⟨l :: labels, rest', by simp, ?_, ?_⟩
      · simpa [Nat.add_assoc] using hfit'
      · simp [Nat.add_assoc]

@[simp] theorem length_toBe16 (v : UInt16) : (toBe16 v).length = 2 := Octets.length_toBeBytes 2 _
@[simp] theorem take_toBe16_append (v : UInt16) (bytes : Bytes) :
    (toBe16 v ++ bytes).take 2 = toBe16 v := List.take_left' (length_toBe16 v)
@[simp] theorem drop_toBe16_append (v : UInt16) (bytes : Bytes) :
    (toBe16 v ++ bytes).drop 2 = bytes := List.drop_left' (length_toBe16 v)

theorem be16_eq_some_iff (bytes : Bytes) (pos : Nat) (v : UInt16) :
    be16 bytes pos = some v ↔ (bytes.drop pos).take 2 = toBe16 v := by
  have hhi : bytes[pos]? = (bytes.drop pos)[0]? := by simp
  have hlo : bytes[pos + 1]? = (bytes.drop pos)[1]? := by simp
  have hlen := length_toBe16 v
  simp only [be16, hhi, hlo]
  match bytes.drop pos with
  | [] =>
    constructor
    · intro h
      cases h
    · intro h
      rw [← h] at hlen
      cases hlen
  | [hi] =>
    constructor
    · intro h
      cases h
    · intro h
      rw [← h] at hlen
      cases hlen
  | hi :: lo :: rest =>
    have hlt : fromBeBytes [hi, lo] < 65536 := by
      simpa using Octets.fromBeBytes_lt [hi, lo]
    have hback := Octets.toBeBytes_fromBeBytes [hi, lo]
    simp only [List.getElem?_cons_zero, List.getElem?_cons_succ, Option.some.injEq,
      List.take_succ_cons, List.take_zero]
    constructor
    · rintro rfl
      rw [toBe16, UInt16.toNat_ofNat_of_lt' hlt]
      exact hback.symm
    · intro h
      rw [h, toBe16, Octets.fromBeBytes_toBeBytes]
      apply UInt16.toNat_inj.mp
      have hv := v.toNat_lt
      simp

/-- What a query says, and where it says it. -/
structure Query.Reads (query : Query) (labels : List Label) : Prop where
  header : headerLen ≤ query.raw.length
  id : (query.raw.take 2) = toBe16 query.id
  flags : (query.raw.drop 2).take 2 = toBe16 query.flags
  isQuery : query.flags &&& flagQr = 0
  oneQuestion : (query.raw.drop 4).take 2 = toBe16 1
  question : ∃ rest, query.raw.drop headerLen = wireLabels labels ++
    0 :: (toBe16 query.question.qtype ++ toBe16 query.question.qclass ++ rest)
  fits : (wireLabels labels).length ≤ 255
  name : query.question.name = dotted labels
  endPos : query.question.endPos = headerLen + (wireLabels labels).length + 5

theorem Query.reads_of_parse {raw : Bytes} {query : Query} (h : parse raw = .ok query) :
    ∃ labels, query.Reads labels := by
  unfold parse at h
  split at h
  · cases h
  next hheader =>
  rw [Nat.not_lt] at hheader
  split at h
  · next id flags qdcount hid hflags hqdcount =>
    split at h
    · cases h
    next hquery =>
    split at h
    · cases h
    next hone =>
    rw [ne_eq, not_not] at hquery hone
    subst hone
    split at h
    · cases h
    next texts pos hname =>
    split at h
    · next qtype qclass hqtype hqclass =>
      have hlen : (raw.take headerLen).length = headerLen := List.length_take_of_le hheader
      have hname' : parseName (raw.take headerLen ++ raw.drop headerLen) (raw.length + 1)
          (raw.take headerLen).length [] = .ok (texts, pos) := by
        rw [List.take_append_drop, hlen, hname]
      obtain ⟨labels, rest, hwire, hfit, hresult⟩ := eq_wire_of_parseName hname'
        (by rw [hlen]) (by rw [hlen]; omega)
      rw [List.nil_append, hlen, Prod.mk.injEq] at hresult
      obtain ⟨rfl, rfl⟩ := hresult
      cases h
      have hrest : raw.drop (headerLen + (wireLabels labels).length + 1) = rest := by
        rw [Nat.add_assoc, ← List.drop_drop, hwire, ← List.drop_drop, List.drop_left]
        rfl
      rw [be16_eq_some_iff, hrest] at hqtype
      rw [be16_eq_some_iff, ← List.drop_drop, hrest] at hqclass
      refine ⟨labels, hheader, (be16_eq_some_iff raw 0 id).mp hid,
        (be16_eq_some_iff raw 2 flags).mp hflags, hquery, (be16_eq_some_iff raw 4 1).mp hqdcount,
        ⟨rest.drop 4, ?_⟩, by omega, rfl, rfl⟩
      have hsplit : rest = toBe16 qtype ++ toBe16 qclass ++ rest.drop 4 := by
        rw [← hqtype, ← hqclass, ← List.take_add, List.take_append_drop]
      rw [hwire, ← hsplit]
    · cases h
  · cases h

theorem Query.parse_of_reads {query : Query} {labels : List Label} (h : query.Reads labels) :
    parse query.raw = .ok query := by
  obtain ⟨rest, hquestion⟩ := h.question
  have hid := (be16_eq_some_iff query.raw 0 query.id).mpr h.id
  have hflags := (be16_eq_some_iff query.raw 2 query.flags).mpr h.flags
  have hone := (be16_eq_some_iff query.raw 4 1).mpr h.oneQuestion
  have hlen : (query.raw.take headerLen).length = headerLen := List.length_take_of_le h.header
  have hname : parseName query.raw (query.raw.length + 1) headerLen [] =
      .ok (labels.map Label.text, headerLen + (wireLabels labels).length + 1) := by
    have hcount := length_le_wireLabels labels
    have hlength := congrArg List.length hquestion
    rw [List.length_drop, List.length_append, List.length_cons] at hlength
    have hwire := parseName_wire (query.raw.take headerLen)
      (toBe16 query.question.qtype ++ toBe16 query.question.qclass ++ rest) labels
      (query.raw.length + 1) [] (by omega) (by have := h.fits; omega)
    rwa [← hquestion, List.take_append_drop, hlen, List.nil_append] at hwire
  have hrest : query.raw.drop (headerLen + (wireLabels labels).length + 1) =
      toBe16 query.question.qtype ++ toBe16 query.question.qclass ++ rest := by
    rw [Nat.add_assoc, ← List.drop_drop, hquestion, ← List.drop_drop, List.drop_left]
    rfl
  have hqtype : be16 query.raw (headerLen + (wireLabels labels).length + 1) =
      some query.question.qtype := by
    rw [be16_eq_some_iff, hrest, List.append_assoc, take_toBe16_append]
  have hqclass : be16 query.raw (headerLen + (wireLabels labels).length + 1 + 2) =
      some query.question.qclass := by
    rw [be16_eq_some_iff, ← List.drop_drop, hrest, List.append_assoc, drop_toBe16_append,
      take_toBe16_append]
  have hheader := h.header
  simp only [parse, if_neg (Nat.not_lt.mpr hheader), hid, hflags, hone, h.isQuery, hname, hqtype,
    hqclass]
  have hname := h.name
  have hendPos := h.endPos
  obtain ⟨id, flags, ⟨name, qtype, qclass, endPos⟩, raw⟩ := query
  cases hname
  cases hendPos
  rfl

theorem Query.parse_eq_ok_iff (raw : Bytes) (query : Query) :
    parse raw = .ok query ↔ query.raw = raw ∧ ∃ labels, query.Reads labels := by
  constructor
  · intro h
    exact ⟨raw_of_parse h, reads_of_parse h⟩
  · rintro ⟨rfl, labels, h⟩
    exact parse_of_reads h

/-- The labels a message asks about. -/
def Names (raw : Bytes) (labels : List Label) : Prop :=
  ∃ rest, raw.drop headerLen = wireLabels labels ++ 0 :: rest

theorem Query.Reads.names {query : Query} {labels : List Label} (h : query.Reads labels) :
    Names query.raw labels := by
  obtain ⟨rest, hquestion⟩ := h.question
  exact ⟨_, hquestion⟩

/-- Lengths keep labels apart: a name is not the front of another. -/
theorem wireLabels_inj {labels labels' : List Label} {rest rest' : Bytes}
    (h : wireLabels labels ++ 0 :: rest = wireLabels labels' ++ 0 :: rest') : labels = labels' := by
  have hne : ∀ l : Label, UInt8.ofNat l.octets.length ≠ 0 := by
    intro l hzero
    have hpos := l.length_pos
    have hlen := l.toNat_length
    rw [hzero] at hlen
    simp at hlen
    omega
  induction labels generalizing labels' with
  | nil =>
    cases labels' with
    | nil => rfl
    | cons l' labels' => exact absurd (List.cons.inj h).1.symm (hne l')
  | cons l labels ih =>
    cases labels' with
    | nil => exact absurd (List.cons.inj h).1 (hne l)
    | cons l' labels' =>
      rw [wireLabels_cons, wireLabels_cons, List.append_assoc, List.append_assoc] at h
      obtain ⟨hhead, htail⟩ := List.cons.inj h
      have hlen : l.octets.length = l'.octets.length := by
        rw [← l.toNat_length, ← l'.toNat_length, hhead]
      obtain ⟨hoctets, hrest⟩ := List.append_inj htail hlen
      rw [ih hrest]
      cases l
      cases l'
      cases hoctets
      rfl

theorem Names.unique {raw : Bytes} {labels labels' : List Label} (h : Names raw labels)
    (h' : Names raw labels') : labels = labels' := by
  obtain ⟨rest, hrest⟩ := h
  obtain ⟨rest', hrest'⟩ := h'
  exact wireLabels_inj (hrest.symm.trans hrest')

/-- An accepted message is one query about one name. -/
theorem Query.reads_of_names {raw : Bytes} {query : Query} {labels : List Label}
    (h : parse raw = .ok query) (hnames : Names raw labels) : query.Reads labels := by
  obtain ⟨rfl, labels', hreads⟩ := (parse_eq_ok_iff raw query).mp h
  rw [hnames.unique hreads.names]
  exact hreads

end Deezns.Dns
