import Deezns.Questions

/-!
# Answers

A resource record is a name, four fields and its data. The name may end in a
pointer to one that stands before it, which is how the daemon's own records are
owned by the question's name.
-/
namespace Deezns.Dns

open Octets (Bytes toBeBytes fromBeBytes)
open Utf8 (Str)

/-- A name at an offset and where it ends: labels one after the other, up to a
zero or to a pointer that goes on with an earlier name. -/
def readName (message : Bytes) : Nat → Nat → Option (List Bytes × Nat)
  | 0, _ => none
  | fuel + 1, pos =>
    match message[pos]? with
    | none => none
    | some b =>
      if b = 0 then some ([], pos + 1)
      else if b.toNat ≤ 63 then
        let octets := (message.drop (pos + 1)).take b.toNat
        if octets.length = b.toNat then
          (readName message fuel (pos + 1 + b.toNat)).map (fun name => (octets :: name.1, name.2))
        else none
      else
        match be16 message pos with
        | none => none
        | some pointer =>
          let target := (pointer &&& 0x3FFF).toNat
          if 0xC0 ≤ b.toNat ∧ target < pos then
            (readName message fuel target).map (fun name => (name.1, pos + 2))
          else none

/-- Every step takes a byte or goes back to a name, which is fuel enough for
the names that are written here. -/
def nameAt (message : Bytes) (pos : Nat) : Option (List Bytes × Nat) :=
  readName message (message.length + 1) pos

structure ResourceRecord where
  owner : List Bytes
  rtype : UInt16
  rclass : UInt16
  ttl : UInt32
  rdata : Bytes
  deriving DecidableEq, Repr

def be32 (bytes : Bytes) (pos : Nat) : Option UInt32 :=
  let word := (bytes.drop pos).take 4
  if word.length = 4 then some (UInt32.ofNat (fromBeBytes word)) else none

def readRecord (message : Bytes) (pos : Nat) : Option (ResourceRecord × Nat) := do
  let (owner, pos) ← nameAt message pos
  let rtype ← be16 message pos
  let rclass ← be16 message (pos + 2)
  let ttl ← be32 message (pos + 4)
  let rdlength ← be16 message (pos + 8)
  let rdata := (message.drop (pos + 10)).take rdlength.toNat
  if rdata.length = rdlength.toNat then
    some (⟨owner, rtype, rclass, ttl, rdata⟩, pos + 10 + rdlength.toNat)
  else none

def readRecords (message : Bytes) : Nat → Nat → Option (List ResourceRecord × Nat)
  | 0, pos => some ([], pos)
  | n + 1, pos => do
    let (record, pos) ← readRecord message pos
    let (records, pos) ← readRecords message n pos
    return (record :: records, pos)

/-- The name of the question of a message, the records of its answer section,
and where these end. -/
def decodeAnswers (message : Bytes) : Option (List Bytes × List ResourceRecord × Nat) := do
  let ancount ← be16 message 6
  let (name, pos) ← nameAt message headerLen
  let (records, pos) ← readRecords message ancount.toNat (pos + 4)
  return (name, records, pos)

/-- A name that is written out is read back. -/
theorem readName_wire (before after : Bytes) (labels : List Label) (fuel : Nat)
    (hfuel : labels.length < fuel) :
    readName (before ++ (wireLabels labels ++ 0 :: after)) fuel before.length =
      some (labels.map Label.octets, before.length + (wireLabels labels).length + 1) := by
  induction labels generalizing before fuel with
  | nil =>
    cases fuel with
    | zero => exact absurd hfuel (Nat.not_lt_zero _)
    | succ fuel => simp [readName]
  | cons l labels ih =>
    cases fuel with
    | zero => exact absurd hfuel (Nat.not_lt_zero _)
    | succ fuel =>
      rw [List.length_cons] at hfuel
      have hrest := ih (before ++ l.wire) fuel (by omega)
      have hmessage : before ++ (wireLabels (l :: labels) ++ 0 :: after) =
          before ++ l.wire ++ (wireLabels labels ++ 0 :: after) := by
        simp
      have hhead : (before ++ l.wire ++ (wireLabels labels ++ 0 :: after))[before.length]? =
          some (UInt8.ofNat l.octets.length) := by
        simp [Label.wire]
      have hdrop : (before ++ l.wire ++ (wireLabels labels ++ 0 :: after)).drop
          (before.length + 1) = l.octets ++ (wireLabels labels ++ 0 :: after) := by
        rw [← List.drop_drop, List.append_assoc, List.drop_left]
        rfl
      have hpos := l.length_pos
      have hle := l.length_le
      have hnat := l.toNat_length
      have hne : UInt8.ofNat l.octets.length ≠ 0 := by
        intro hzero
        rw [hzero] at hnat
        simp at hnat
        omega
      have hnext : before.length + 1 + l.octets.length = (before ++ l.wire).length := by
        rw [List.length_append, Label.length_wire]
        omega
      rw [hmessage]
      simp only [readName, hhead, hdrop, hnat, if_neg hne, if_pos hle, List.take_left, if_true,
        hnext, hrest, Option.map_some, List.map_cons]
      simp [Nat.add_assoc]

/-- The bytes of a record owned by the name of the question. -/
def pointed (rtype rclass : UInt16) (ttl : UInt32) (rdata : Bytes) : Bytes :=
  [0xC0, 12] ++ toBe16 rtype ++ toBe16 rclass ++ toBeBytes 4 ttl.toNat ++
    toBe16 (UInt16.ofNat rdata.length) ++ rdata

/-- The pointer leads to the name of the question. -/
theorem nameAt_pointer {before : Bytes} {labels : List Label} (hnames : Names before labels)
    (after : Bytes) :
    nameAt (before ++ (0xC0 :: 12 :: after)) before.length =
      some (labels.map Label.octets, before.length + 2) := by
  obtain ⟨rest, hrest⟩ := hnames
  have hlen := congrArg List.length hrest
  rw [List.length_drop, List.length_append, List.length_cons] at hlen
  have hcount := length_le_wireLabels labels
  have hhead : (before.take headerLen).length = headerLen := List.length_take_of_le (by omega)
  have hmessage : before ++ (0xC0 :: 12 :: after) = before.take headerLen ++
      (wireLabels labels ++ 0 :: (rest ++ (0xC0 :: 12 :: after))) := by
    have hsplit : before = before.take headerLen ++ (wireLabels labels ++ 0 :: rest) := by
      rw [← hrest, List.take_append_drop]
    conv => lhs; rw [hsplit]
    simp
  have hfirst : (before ++ (0xC0 :: 12 :: after))[before.length]? = some 0xC0 := by simp
  have hpointer : be16 (before ++ (0xC0 :: 12 :: after)) before.length = some 0xC00C := by
    rw [be16_eq_some_iff, List.drop_left]
    rfl
  have hread := readName_wire (before.take headerLen) (rest ++ (0xC0 :: 12 :: after)) labels
    (before ++ (0xC0 :: 12 :: after)).length (by rw [List.length_append]; omega)
  rw [← hmessage, hhead] at hread
  have htarget : ((0xC00C : UInt16) &&& 0x3FFF).toNat = headerLen := rfl
  have hback : headerLen < before.length := by omega
  simp only [nameAt, readName, hfirst, hpointer, htarget, hread, Option.map_some]
  simp [hback]

theorem be16_of_drop {bytes after : Bytes} {pos : Nat} {v : UInt16}
    (h : bytes.drop pos = toBe16 v ++ after) : be16 bytes pos = some v := by
  rw [be16_eq_some_iff, h, take_toBe16_append]

theorem be32_of_drop {bytes after : Bytes} {pos : Nat} {v : UInt32}
    (h : bytes.drop pos = toBeBytes 4 v.toNat ++ after) : be32 bytes pos = some v := by
  have hword : (bytes.drop pos).take 4 = toBeBytes 4 v.toNat := by
    rw [h]
    exact List.take_left' (Octets.length_toBeBytes _ _)
  have hv := v.toNat_lt
  simp only [be32, hword, Octets.length_toBeBytes, if_true, Octets.fromBeBytes_toBeBytes]
  rw [Nat.mod_eq_of_lt (by simpa using hv), UInt32.ofNat_toNat]

/-- A record is read back, with the name its pointer leads to. -/
theorem readRecord_pointed {before : Bytes} {labels : List Label} (hnames : Names before labels)
    (rtype rclass : UInt16) (ttl : UInt32) {rdata : Bytes} (hlen : rdata.length < 65536)
    (after : Bytes) :
    readRecord (before ++ (pointed rtype rclass ttl rdata ++ after)) before.length =
      some (⟨labels.map Label.octets, rtype, rclass, ttl, rdata⟩,
        before.length + (pointed rtype rclass ttl rdata).length) := by
  have hname := nameAt_pointer hnames (toBe16 rtype ++ (toBe16 rclass ++
    (toBeBytes 4 ttl.toNat ++ (toBe16 (UInt16.ofNat rdata.length) ++ (rdata ++ after)))))
  have hsplit : before ++ (0xC0 :: 12 :: (toBe16 rtype ++ (toBe16 rclass ++
      (toBeBytes 4 ttl.toNat ++ (toBe16 (UInt16.ofNat rdata.length) ++ (rdata ++ after)))))) =
      before ++ (pointed rtype rclass ttl rdata ++ after) := by
    simp [pointed]
  rw [hsplit] at hname
  -- the fields, one behind the other
  have hafter : ∀ (n k : Nat) (field rest : Bytes), field.length = k →
      (before ++ (pointed rtype rclass ttl rdata ++ after)).drop (before.length + n) =
        field ++ rest →
      (before ++ (pointed rtype rclass ttl rdata ++ after)).drop (before.length + n + k) =
        rest := by
    intro n k field rest hk hfield
    rw [← List.drop_drop, hfield, List.drop_left' hk]
  have hrtype : (before ++ (pointed rtype rclass ttl rdata ++ after)).drop (before.length + 2) =
      toBe16 rtype ++ (toBe16 rclass ++ (toBeBytes 4 ttl.toNat ++
        (toBe16 (UInt16.ofNat rdata.length) ++ (rdata ++ after)))) := by
    rw [← List.drop_drop, List.drop_left]
    simp [pointed]
  have hrclass := hafter 2 2 _ _ (length_toBe16 _) hrtype
  have httl := hafter 4 2 _ _ (length_toBe16 _) hrclass
  have hrdlength := hafter 6 4 _ _ (Octets.length_toBeBytes _ _) httl
  have hrdata := hafter 10 2 _ _ (length_toBe16 _) hrdlength
  have hcount : (UInt16.ofNat rdata.length).toNat = rdata.length :=
    UInt16.toNat_ofNat_of_lt' hlen
  have hpos : before.length + 2 + 10 = before.length + 10 + 2 := by omega
  have hlength : (pointed rtype rclass ttl rdata).length = 12 + rdata.length := by
    simp [pointed]
    omega
  simp only [readRecord, hname, Option.bind_eq_bind, Option.bind_some, be16_of_drop hrtype,
    be16_of_drop hrclass, be32_of_drop httl, be16_of_drop hrdlength, hcount, hpos, hrdata,
    List.take_left, if_true, hlength]
  congr 2
  omega

theorem Names.append {raw : Bytes} {labels : List Label} (h : Names raw labels) (after : Bytes) :
    Names (raw ++ after) labels := by
  obtain ⟨rest, hrest⟩ := h
  have hlen := congrArg List.length hrest
  rw [List.length_drop, List.length_append, List.length_cons] at hlen
  refine ⟨rest ++ after, ?_⟩
  rw [List.drop_append_of_le_length (by omega), hrest]
  simp

/-- So is a section of records of one kind, to its end. -/
theorem readRecords_pointed {before : Bytes} {labels : List Label} (hnames : Names before labels)
    (rtype rclass : UInt16) (ttl : UInt32) (data : List Bytes)
    (hlen : ∀ rdata ∈ data, rdata.length < 65536) :
    readRecords (before ++ data.flatMap (pointed rtype rclass ttl)) data.length before.length =
      some (data.map (fun rdata => ⟨labels.map Label.octets, rtype, rclass, ttl, rdata⟩),
        (before ++ data.flatMap (pointed rtype rclass ttl)).length) := by
  induction data generalizing before with
  | nil => simp [readRecords]
  | cons rdata data ih =>
    rw [List.forall_mem_cons] at hlen
    have hfirst := readRecord_pointed hnames rtype rclass ttl hlen.1
      (data.flatMap (pointed rtype rclass ttl))
    have hrest := ih (hnames.append (pointed rtype rclass ttl rdata)) hlen.2
    rw [List.append_assoc, List.length_append] at hrest
    simp only [List.flatMap_cons, List.length_cons, readRecords, hfirst, hrest, Option.bind_eq_bind,
      Option.bind_some, List.map_cons]
    rfl

def v4Octets : IpAddr → Option Bytes
  | .v4 a => some a.octets
  | .v6 _ => none

def v6Octets : IpAddr → Option Bytes
  | .v4 _ => none
  | .v6 a => some a.octets

/-- The data that answer a question of a type. -/
def addressData (qtype : UInt16) (addrs : List IpAddr) : List Bytes :=
  if qtype = typeA then addrs.filterMap v4Octets
  else if qtype = typeAaaa then addrs.filterMap v6Octets
  else []

theorem Query.record_of_typeA {query : Query} (h : query.question.qtype = typeA) (addr : IpAddr) :
    query.record addr = (v4Octets addr).map (pointed query.question.qtype classIn answerTtl) := by
  have hne : typeA ≠ typeAaaa := by decide
  cases addr with
  | v4 a => simp [record, v4Octets, h, pointed]
  | v6 a => simp [record, v4Octets, h, hne]

theorem Query.record_of_typeAaaa {query : Query} (h : query.question.qtype = typeAaaa)
    (addr : IpAddr) :
    query.record addr = (v6Octets addr).map (pointed query.question.qtype classIn answerTtl) := by
  have hne : typeAaaa ≠ typeA := by decide
  cases addr with
  | v4 a => simp [record, v6Octets, h, hne]
  | v6 a => simp [record, v6Octets, h, pointed]

theorem Query.record_of_other {query : Query} (hA : query.question.qtype ≠ typeA)
    (hAaaa : query.question.qtype ≠ typeAaaa) (addr : IpAddr) : query.record addr = none := by
  cases addr with
  | v4 a => simp [record, hA]
  | v6 a => simp [record, hAaaa]

/-- The records of an answer hold the addresses of the type asked for. -/
theorem Query.filterMap_record (query : Query) (addrs : List IpAddr) :
    addrs.filterMap query.record = (addressData query.question.qtype addrs).map
      (pointed query.question.qtype classIn answerTtl) := by
  unfold addressData
  split
  · next hA => rw [List.map_filterMap, funext (record_of_typeA hA)]
  · next hA =>
    split
    · next hAaaa => rw [List.map_filterMap, funext (record_of_typeAaaa hAaaa)]
    · next hAaaa => rw [funext (record_of_other hA hAaaa), List.map_nil, List.filterMap_none]

theorem length_of_mem_addressData {qtype : UInt16} {addrs : List IpAddr} {rdata : Bytes}
    (h : rdata ∈ addressData qtype addrs) : rdata.length < 65536 := by
  unfold addressData at h
  split at h
  · obtain ⟨addr, _, haddr⟩ := List.mem_filterMap.mp h
    cases addr with
    | v4 a =>
      rw [← Option.some.inj haddr, a.length_octets]
      decide
    | v6 a => cases haddr
  · split at h
    · obtain ⟨addr, _, haddr⟩ := List.mem_filterMap.mp h
      cases addr with
      | v4 a => cases haddr
      | v6 a =>
        rw [← Option.some.inj haddr, a.length_octets]
        decide
    · cases h

theorem length_addressData_le (qtype : UInt16) (addrs : List IpAddr) :
    (addressData qtype addrs).length ≤ addrs.length := by
  unfold addressData
  split
  · exact List.length_filterMap_le _ _
  · split
    · exact List.length_filterMap_le _ _
    · exact Nat.zero_le _

/-- The name of an encoded question is read back. -/
theorem nameAt_question (header : Bytes) (labels : List Label) (qtype qclass : UInt16)
    (rest : Bytes) :
    nameAt (header ++ encodeQuestion labels qtype qclass ++ rest) header.length =
      some (labels.map Label.octets, header.length + (encodeName labels).length) := by
  have hmessage : header ++ encodeQuestion labels qtype qclass ++ rest =
      header ++ (wireLabels labels ++ 0 :: (toBe16 qtype ++ toBe16 qclass ++ rest)) := by
    simp [encodeQuestion, encodeName]
  have hcount := length_le_wireLabels labels
  rw [hmessage, length_encodeName]
  apply readName_wire
  rw [List.length_append, List.length_append]
  omega

theorem names_question {header : Bytes} (hheader : header.length = headerLen)
    (labels : List Label) (qtype qclass : UInt16) :
    Names (header ++ encodeQuestion labels qtype qclass) labels := by
  refine ⟨toBe16 qtype ++ toBe16 qclass, ?_⟩
  rw [List.drop_left' hheader]
  simp [encodeQuestion, encodeName]

/-- An answer is a header, the question, and a record for each address. -/
theorem Query.Reads.answer_eq {query : Query} {labels : List Label} (h : query.Reads labels)
    (addrs : List IpAddr) :
    query.answer addrs =
      encodeHeader query.id (responseFlags query.flags rcodeNoerror)
          (UInt16.ofNat (addressData query.question.qtype addrs).length) 0 0 ++
        encodeQuestion labels query.question.qtype query.question.qclass ++
        (addressData query.question.qtype addrs).flatMap
          (pointed query.question.qtype classIn answerTtl) := by
  rw [Query.answer, Query.response_eq, Query.filterMap_record, h.questionBytes_eq,
    List.length_map, ← List.flatMap_def, ← List.append_assoc]

/-- The records behind the question of an answer, and nothing behind them. -/
theorem Query.Reads.readRecords_answer {query : Query} {labels : List Label}
    (h : query.Reads labels) (addrs : List IpAddr) :
    readRecords (query.answer addrs) (addressData query.question.qtype addrs).length
        query.question.endPos =
      some ((addressData query.question.qtype addrs).map (fun rdata =>
        ⟨labels.map Label.octets, query.question.qtype, classIn, answerTtl, rdata⟩),
        (query.answer addrs).length) := by
  have hheader := length_encodeHeader query.id (responseFlags query.flags rcodeNoerror)
    (UInt16.ofNat (addressData query.question.qtype addrs).length) 0 0
  have hrecords := readRecords_pointed
    (names_question hheader labels query.question.qtype query.question.qclass)
    query.question.qtype classIn answerTtl (addressData query.question.qtype addrs)
    (fun _ => length_of_mem_addressData)
  rw [← h.answer_eq addrs, List.length_append, hheader, length_encodeQuestion, ← Nat.add_assoc,
    ← h.endPos] at hrecords
  exact hrecords

/-- The answer to a query decodes to the addresses of the type asked for. -/
theorem answer_decodes {raw : Bytes} {query : Query} (h : Query.parse raw = .ok query)
    (addrs : List IpAddr) (hcount : addrs.length < 65536) :
    ∃ labels ancount records, Names raw labels ∧ query.question.name = dotted labels ∧
      be16 (query.answer addrs) 6 = some ancount ∧ records.length = ancount.toNat ∧
      decodeAnswers (query.answer addrs) =
        some (labels.map Label.octets, records, (query.answer addrs).length) ∧
      (∀ record ∈ records, record.owner = labels.map Label.octets ∧
        record.rtype = query.question.qtype ∧ record.rclass = classIn ∧ record.ttl = 60) ∧
      records.map ResourceRecord.rdata = addressData query.question.qtype addrs := by
  obtain ⟨rfl, labels, hreads⟩ := (Query.parse_eq_ok_iff raw query).mp h
  have hdata := length_addressData_le query.question.qtype addrs
  have hancount : (UInt16.ofNat (addressData query.question.qtype addrs).length).toNat =
      (addressData query.question.qtype addrs).length :=
    UInt16.toNat_ofNat_of_lt' (hdata.trans_lt hcount)
  have hanswer := hreads.answer_eq addrs
  have hfield : be16 (query.answer addrs) 6 =
      some (UInt16.ofNat (addressData query.question.qtype addrs).length) := by
    rw [hanswer, List.append_assoc]
    exact (headerIs_encodeHeader _ _ _ _ _ _).ancount
  have hname : nameAt (query.answer addrs) headerLen =
      some (labels.map Label.octets, headerLen + (encodeName labels).length) := by
    rw [hanswer]
    exact nameAt_question _ labels _ _ _
  have hend : headerLen + (encodeName labels).length + 4 = query.question.endPos := by
    rw [length_encodeName, hreads.endPos]
    omega
  have hrecords := hreads.readRecords_answer addrs
  refine ⟨labels, _, (addressData query.question.qtype addrs).map (fun rdata =>
      ⟨labels.map Label.octets, query.question.qtype, classIn, answerTtl, rdata⟩),
    hreads.names, hreads.name, hfield, ?_, ?_, ?_, ?_⟩
  · rw [List.length_map, hancount]
  · simp only [decodeAnswers, hfield, hname, hancount, hend, hrecords, Option.bind_eq_bind,
      Option.bind_some]
    rfl
  · intro record hrecord
    obtain ⟨rdata, _, rfl⟩ := List.mem_map.mp hrecord
    exact ⟨rfl, rfl, rfl, rfl⟩
  · rw [List.map_map]
    exact List.map_id _

/-- A query for the IPv6 addresses of `a`. -/
def aaaaQuery : Query where
  id := 7
  flags := 0x0100
  question := ⟨['a'], typeAaaa, classIn, 19⟩
  raw := Frontend.testQuery.take 16 ++ [28, 0, 1]

/-- `::1`. -/
def loopbackV6 : IpAddr := .v6 ⟨List.replicate 15 0 ++ [1], rfl⟩

theorem answer_decodes_mixed :
    ∃ labels ancount records, Names aaaaQuery.raw labels ∧
      aaaaQuery.question.name = dotted labels ∧
      be16 (aaaaQuery.answer [loopback, loopbackV6]) 6 = some ancount ∧
      records.length = ancount.toNat ∧
      decodeAnswers (aaaaQuery.answer [loopback, loopbackV6]) =
        some (labels.map Label.octets, records,
          (aaaaQuery.answer [loopback, loopbackV6]).length) ∧
      (∀ record ∈ records, record.owner = labels.map Label.octets ∧
        record.rtype = aaaaQuery.question.qtype ∧ record.rclass = classIn ∧ record.ttl = 60) ∧
      records.map ResourceRecord.rdata = addressData aaaaQuery.question.qtype
        [loopback, loopbackV6] :=
  answer_decodes (by decide : Query.parse aaaaQuery.raw = .ok aaaaQuery) [loopback, loopbackV6]
    (by decide)

/-! The class of a question is read, and the answer made without it. -/

/-- `ANY` as a class: records of every class are asked for. -/
def classAny : UInt16 := 255

/-- Every record behind the question of a reply answers the question's class;
a question whose class is not that of addresses has no records at all. -/
def Query.AnsweredInClass (query : Query) (reply : Bytes) : Prop :=
  ∀ n records pos, readRecords reply n query.question.endPos = some (records, pos) →
    (∀ record ∈ records, record.rclass = query.question.qclass ∨
      query.question.qclass = classAny) ∧
    (query.question.qclass ≠ classIn → query.question.qclass ≠ classAny → records = [])

theorem readRecords_succ_eq_some_iff (message : Bytes) (n pos : Nat)
    (records : List ResourceRecord) (endPos : Nat) :
    readRecords message (n + 1) pos = some (records, endPos) ↔
      ∃ record next others, readRecord message pos = some (record, next) ∧
        readRecords message n next = some (others, endPos) ∧ records = record :: others := by
  simp only [readRecords, Option.bind_eq_bind, Option.bind_eq_some_iff, Prod.exists]
  constructor
  · rintro ⟨record, next, hfirst, others, pos', hothers, heq⟩
    cases heq
    exact ⟨record, next, others, hfirst, hothers, rfl⟩
  · rintro ⟨record, next, others, hfirst, hothers, rfl⟩
    exact ⟨record, next, hfirst, others, endPos, hothers, rfl⟩

theorem readRecord_end (message : Bytes) : readRecord message message.length = none := by
  simp [readRecord, nameAt, readName]

/-- Reading fewer records, or more than there are, gives no others. -/
theorem prefix_of_readRecords {message : Bytes} {m n pos endPos : Nat}
    {all records : List ResourceRecord} (hall : readRecords message m pos =
      some (all, message.length)) (h : readRecords message n pos = some (records, endPos)) :
    records <+: all := by
  induction n generalizing m pos all records with
  | zero =>
    cases h
    exact List.nil_prefix
  | succ n ih =>
    obtain ⟨record, next, others, hfirst, hothers, rfl⟩ :=
      (readRecords_succ_eq_some_iff _ _ _ _ _).mp h
    cases m with
    | zero =>
      cases hall
      rw [readRecord_end] at hfirst
      cases hfirst
    | succ m =>
      obtain ⟨record', next', all', hfirst', hall', rfl⟩ :=
        (readRecords_succ_eq_some_iff _ _ _ _ _).mp hall
      rw [hfirst] at hfirst'
      cases hfirst'
      exact List.cons_prefix_cons.mpr ⟨rfl, ih hall' hothers⟩

/-- An answer goes with the class of its question for the classes `IN` and
`ANY`, and else only where there is no address to return. -/
theorem answered_in_class_iff {raw : Bytes} {query : Query} (h : Query.parse raw = .ok query)
    (addrs : List IpAddr) : query.AnsweredInClass (query.answer addrs) ↔
      query.question.qclass = classIn ∨ query.question.qclass = classAny ∨
        addressData query.question.qtype addrs = [] := by
  obtain ⟨_, labels, hreads⟩ := (Query.parse_eq_ok_iff raw query).mp h
  have hall := hreads.readRecords_answer addrs
  constructor
  · intro hclass
    by_cases hin : query.question.qclass = classIn
    · exact .inl hin
    · by_cases hany : query.question.qclass = classAny
      · exact .inr (.inl hany)
      · have hnil := (hclass _ _ _ hall).2 hin hany
        exact .inr (.inr (List.map_eq_nil_iff.mp hnil))
  · intro hwhen n records pos hrecords
    have hpre := prefix_of_readRecords hall hrecords
    rcases hwhen with hin | hany | hnil
    · refine ⟨?_, fun hnot => absurd hin hnot⟩
      intro record hrecord
      obtain ⟨rdata, _, rfl⟩ := List.mem_map.mp (hpre.subset hrecord)
      exact .inl hin.symm
    · exact ⟨fun _ _ => .inr hany, fun _ hnot => absurd hany hnot⟩
    · rw [hnil, List.map_nil, List.prefix_nil] at hpre
      rw [hpre]
      exact ⟨fun _ hrecord => absurd hrecord List.not_mem_nil, fun _ _ => rfl⟩

theorem answered_in_class_mixed :
    aaaaQuery.AnsweredInClass (aaaaQuery.answer [loopback, loopbackV6]) :=
  (answered_in_class_iff (by decide : Query.parse aaaaQuery.raw = .ok aaaaQuery)
    [loopback, loopbackV6]).mpr (.inl rfl)

/-- The question of `testQuery` in the class `CH`. -/
def chaosQuery : Query where
  id := 7
  flags := 0x0100
  question := ⟨['a'], typeA, 3, 19⟩
  raw := Frontend.testQuery.take 16 ++ [1, 0, 3]

/-- A question of the class `CH` is answered with a record of the class `IN`. -/
theorem chaos_answered_in : Query.parse chaosQuery.raw = .ok chaosQuery ∧
    (∃ record pos, readRecords (chaosQuery.answer [loopback]) 1 chaosQuery.question.endPos =
      some ([record], pos) ∧ record.rclass = classIn) ∧
    chaosQuery.question.qclass ≠ classIn ∧ chaosQuery.question.qclass ≠ classAny ∧
    ¬ chaosQuery.AnsweredInClass (chaosQuery.answer [loopback]) := by
  have hread : readRecords (chaosQuery.answer [loopback]) 1 chaosQuery.question.endPos =
      some ([⟨[[97]], typeA, classIn, answerTtl, [127, 0, 0, 1]⟩], 35) := by decide
  refine ⟨by decide, ⟨_, _, hread, rfl⟩, by decide, by decide, ?_⟩
  intro hclass
  have hnil := (hclass _ _ _ hread).2 (by decide) (by decide)
  cases hnil

end Deezns.Dns
