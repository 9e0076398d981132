import Deezns.DnsReplies

/-!
# Questions and their echoes

The parser accepts a header with the encoding of one question behind it. The
same encoding stands in every reply made here, so that such a reply, were it
not marked as a response, would be a query for the same name again.
-/
namespace Deezns.Dns

open Octets (Bytes)
open Utf8 (Str)

/-- A name on the wire, with the zero that closes it. -/
def encodeName (labels : List Label) : Bytes := wireLabels labels ++ [0]

def encodeQuestion (labels : List Label) (qtype qclass : UInt16) : Bytes :=
  encodeName labels ++ toBe16 qtype ++ toBe16 qclass

/-- The header of a message with one question. -/
def encodeHeader (id flags ancount nscount arcount : UInt16) : Bytes :=
  toBe16 id ++ toBe16 flags ++ toBe16 1 ++ toBe16 ancount ++ toBe16 nscount ++ toBe16 arcount

@[simp] theorem length_encodeName (labels : List Label) :
    (encodeName labels).length = (wireLabels labels).length + 1 := by
  simp [encodeName]
@[simp] theorem length_encodeQuestion (labels : List Label) (qtype qclass : UInt16) :
    (encodeQuestion labels qtype qclass).length = (wireLabels labels).length + 5 := by
  simp [encodeQuestion]
@[simp] theorem length_encodeHeader (id flags ancount nscount arcount : UInt16) :
    (encodeHeader id flags ancount nscount arcount).length = headerLen := by
  simp [encodeHeader, headerLen]

/-- Integers written in a row are read back at their offsets. -/
theorem be16_words (words : List UInt16) (rest : Bytes) (i : Nat) (h : i < words.length) :
    be16 (words.flatMap toBe16 ++ rest) (2 * i) = some words[i] := by
  induction words generalizing i with
  | nil => exact absurd h (Nat.not_lt_zero i)
  | cons w words ih =>
    rw [List.flatMap_cons, List.append_assoc]
    cases i with
    | zero => exact (be16_eq_some_iff _ _ _).mpr (take_toBe16_append _ _)
    | succ i =>
      have hword := (be16_eq_some_iff _ _ _).mp (ih i (Nat.lt_of_succ_lt_succ h))
      rw [be16_eq_some_iff, Nat.mul_succ, Nat.add_comm, ← List.drop_drop, drop_toBe16_append]
      exact hword

/-- The fields of a header, each where it stands. -/
structure HeaderIs (message : Bytes) (id flags ancount nscount arcount : UInt16) : Prop where
  id : be16 message 0 = some id
  flags : be16 message 2 = some flags
  qdcount : be16 message 4 = some 1
  ancount : be16 message 6 = some ancount
  nscount : be16 message 8 = some nscount
  arcount : be16 message 10 = some arcount

theorem headerIs_encodeHeader (id flags ancount nscount arcount : UInt16) (rest : Bytes) :
    HeaderIs (encodeHeader id flags ancount nscount arcount ++ rest) id flags ancount nscount
      arcount := by
  have hwords : encodeHeader id flags ancount nscount arcount =
      [id, flags, 1, ancount, nscount, arcount].flatMap toBe16 := by
    simp [encodeHeader]
  have hfield := be16_words [id, flags, 1, ancount, nscount, arcount] rest
  rw [← hwords] at hfield
  exact ⟨hfield 0 (by simp), hfield 1 (by simp), hfield 2 (by simp), hfield 3 (by simp),
    hfield 4 (by simp), hfield 5 (by simp)⟩

/-- The message is a query for one name, of whatever length. -/
structure OneQuestion (raw : Bytes) (labels : List Label) : Prop where
  header : headerLen ≤ raw.length
  isQuery : ∃ flags, be16 raw 2 = some flags ∧ flags &&& flagQr = 0
  oneQuestion : be16 raw 4 = some 1
  question : ∃ rest, raw.drop headerLen = encodeName labels ++ rest ∧ 4 ≤ rest.length

theorem OneQuestion.names {raw : Bytes} {labels : List Label} (h : OneQuestion raw labels) :
    Names raw labels := by
  obtain ⟨rest, hrest, _⟩ := h.question
  exact ⟨rest, by simpa [encodeName] using hrest⟩

theorem Query.Reads.asksOne {query : Query} {labels : List Label} (h : query.Reads labels) :
    OneQuestion query.raw labels := by
  obtain ⟨rest, hquestion⟩ := h.question
  exact ⟨h.header, ⟨query.flags, (be16_eq_some_iff _ _ _).mpr h.flags, h.isQuery⟩,
    (be16_eq_some_iff _ _ _).mpr h.oneQuestion,
    ⟨toBe16 query.question.qtype ++ toBe16 query.question.qclass ++ rest,
      by simpa [encodeName] using hquestion, by simp; omega⟩⟩

/-- Two bytes that are there are an integer. -/
theorem exists_be16 {bytes : Bytes} {pos : Nat} (h : pos + 2 ≤ bytes.length) :
    ∃ v, be16 bytes pos = some v := by
  have hhi : pos < bytes.length := by omega
  have hlo : pos + 1 < bytes.length := by omega
  simp [be16, hhi, hlo]

theorem OneQuestion.reads {raw : Bytes} {labels : List Label} (h : OneQuestion raw labels)
    (hfits : (encodeName labels).length ≤ 256) :
    ∃ query : Query, query.raw = raw ∧ query.Reads labels := by
  have hheader := h.header
  have htwo : 0 + 2 ≤ raw.length := by
    simp only [headerLen] at hheader
    omega
  obtain ⟨id, hid⟩ := exists_be16 htwo
  obtain ⟨flags, hflags, hquery⟩ := h.isQuery
  obtain ⟨rest, hrest, hlen⟩ := h.question
  obtain ⟨qtype, hqtype⟩ := exists_be16 (show 0 + 2 ≤ rest.length by omega)
  obtain ⟨qclass, hqclass⟩ := exists_be16 (show 2 + 2 ≤ rest.length by omega)
  rw [be16_eq_some_iff] at hid hflags hqtype hqclass
  refine ⟨⟨id, flags, ⟨dotted labels, qtype, qclass, headerLen + (wireLabels labels).length + 5⟩,
    raw⟩, rfl, hheader, hid, hflags, hquery, (be16_eq_some_iff _ _ _).mp h.oneQuestion,
    ⟨rest.drop 4, ?_⟩, ?_, rfl, rfl⟩
  · have hsplit : rest = toBe16 qtype ++ toBe16 qclass ++ rest.drop 4 := by
      rw [← hqtype, ← hqclass, List.drop_zero, ← List.take_add, List.take_append_drop]
    rw [hrest, encodeName, List.append_assoc, List.singleton_append]
    exact congrArg (fun r => wireLabels labels ++ 0 :: r) hsplit
  · rw [length_encodeName] at hfits
    show (wireLabels labels).length ≤ 255
    omega

/-- The query that a header and an encoded question make. -/
def queryOf (id flags ancount nscount arcount : UInt16) (labels : List Label)
    (qtype qclass : UInt16) (rest : Bytes) : Query where
  id := id
  flags := flags
  question := ⟨dotted labels, qtype, qclass, headerLen + (wireLabels labels).length + 5⟩
  raw := encodeHeader id flags ancount nscount arcount ++ encodeQuestion labels qtype qclass ++ rest

theorem reads_queryOf (id flags ancount nscount arcount : UInt16) (labels : List Label)
    (qtype qclass : UInt16) (rest : Bytes) (hquery : flags &&& flagQr = 0)
    (hfits : (encodeName labels).length ≤ 256) :
    (queryOf id flags ancount nscount arcount labels qtype qclass rest).Reads labels := by
  have hdrop : (queryOf id flags ancount nscount arcount labels qtype qclass rest).raw.drop
      headerLen = encodeQuestion labels qtype qclass ++ rest := by
    rw [queryOf, List.append_assoc, List.drop_left' (length_encodeHeader _ _ _ _ _)]
  have hheader := headerIs_encodeHeader id flags ancount nscount arcount
    (encodeQuestion labels qtype qclass ++ rest)
  rw [← List.append_assoc] at hheader
  refine ⟨?_, (be16_eq_some_iff _ _ _).mp hheader.id, (be16_eq_some_iff _ _ _).mp hheader.flags,
    hquery, (be16_eq_some_iff _ _ _).mp hheader.qdcount, ⟨rest, ?_⟩, ?_, rfl, rfl⟩
  · rw [queryOf, List.append_assoc, List.length_append, length_encodeHeader]
    omega
  · rw [hdrop]
    simp [encodeQuestion, encodeName, queryOf]
  · rw [length_encodeName] at hfits
    omega

/-- What the parser accepts: the check of the length comes before the zero. -/
theorem parse_ok_iff_oneQuestion (raw : Bytes) :
    (∃ query, Query.parse raw = .ok query) ↔
      ∃ labels, OneQuestion raw labels ∧ (encodeName labels).length ≤ 256 := by
  constructor
  · intro h
    obtain ⟨query, hparse⟩ := h
    obtain ⟨rfl, labels, hreads⟩ := (Query.parse_eq_ok_iff raw query).mp hparse
    refine ⟨labels, hreads.asksOne, ?_⟩
    have hfits := hreads.fits
    rw [length_encodeName]
    omega
  · intro h
    obtain ⟨labels, hone, hfits⟩ := h
    obtain ⟨query, rfl, hreads⟩ := hone.reads hfits
    exact ⟨query, Query.parse_of_reads hreads⟩

/-- A message is taken for a query exactly if it is one for a name of at most
255 bytes, unless it asks for a name of 256. -/
theorem parse_accepts_iff (raw : Bytes) :
    ((∃ query, Query.parse raw = .ok query) ↔
      ∃ labels, OneQuestion raw labels ∧ (encodeName labels).length ≤ 255) ↔
    ¬ ∃ labels, OneQuestion raw labels ∧ (encodeName labels).length = 256 := by
  rw [parse_ok_iff_oneQuestion]
  constructor
  · intro h hlong
    obtain ⟨labels, hone, hlen⟩ := hlong
    obtain ⟨labels', hone', hfits⟩ := h.mp ⟨labels, hone, hlen.le⟩
    rw [hone'.names.unique hone.names] at hfits
    omega
  · intro h
    constructor
    · intro haccepted
      obtain ⟨labels, hone, hfits⟩ := haccepted
      refine ⟨labels, hone, ?_⟩
      by_contra hlong
      exact h ⟨labels, hone, by omega⟩
    · intro hshort
      obtain ⟨labels, hone, hfits⟩ := hshort
      exact ⟨labels, hone, by omega⟩

/-- A label of one letter, over and over. -/
def longLabel (n : Nat) (hpos : 0 < n) (hle : n ≤ 63) : Label :=
  ⟨List.replicate n 97, by simpa using hpos, by simpa using hle⟩

/-- Four labels that take 255 bytes without the zero. -/
def longName : List Label :=
  List.replicate 3 (longLabel 63 (by decide) (by decide)) ++ [longLabel 62 (by decide) (by decide)]

/-- A query for a name of one byte too many is accepted. -/
theorem parse_accepts_256_bytes :
    ¬ ((∃ query, Query.parse (queryOf 7 0x0100 0 0 0 longName 1 1 []).raw = .ok query) ↔
      ∃ labels, OneQuestion (queryOf 7 0x0100 0 0 0 longName 1 1 []).raw labels ∧
        (encodeName labels).length ≤ 255) := by
  have hlen : (encodeName longName).length = 256 := by
    simp [longName, longLabel, List.replicate_succ]
  have hreads := reads_queryOf 7 0x0100 0 0 0 longName 1 1 [] rfl hlen.le
  intro h
  obtain ⟨labels, hone, hfits⟩ := h.mp ⟨_, Query.parse_of_reads hreads⟩
  rw [hone.names.unique hreads.names] at hfits
  omega

/-- The question section of an accepted query is the encoding of what it says. -/
theorem Query.Reads.questionBytes_eq {query : Query} {labels : List Label}
    (h : query.Reads labels) : query.questionBytes =
      encodeQuestion labels query.question.qtype query.question.qclass := by
  obtain ⟨rest, hquestion⟩ := h.question
  have hlen := length_encodeQuestion labels query.question.qtype query.question.qclass
  have hend : query.question.endPos - headerLen = (wireLabels labels).length + 5 := by
    rw [h.endPos]
    omega
  rw [Query.questionBytes, List.drop_take, hend, hquestion, ← hlen]
  have hencode : wireLabels labels ++ 0 :: (toBe16 query.question.qtype ++
      toBe16 query.question.qclass ++ rest) =
        encodeQuestion labels query.question.qtype query.question.qclass ++ rest := by
    simp [encodeQuestion, encodeName]
  rw [hencode, List.take_left]

/-- It lies within the message. -/
theorem Query.Reads.endPos_le {query : Query} {labels : List Label} (h : query.Reads labels) :
    query.question.endPos ≤ query.raw.length := by
  obtain ⟨rest, hquestion⟩ := h.question
  have hlen := congrArg List.length hquestion
  have hheader := h.header
  simp only [List.length_drop, List.length_append, List.length_cons, length_toBe16] at hlen
  rw [h.endPos]
  omega

/-- Parsing undoes the encoding of a question, and accepts nothing else. -/
theorem parse_inverts_encode :
    (∀ (id flags ancount nscount arcount : UInt16) (labels : List Label)
        (qtype qclass : UInt16) (rest : Bytes),
      flags &&& flagQr = 0 → (encodeName labels).length ≤ 255 →
      ∃ query : Query,
        Query.parse (encodeHeader id flags ancount nscount arcount ++
          encodeQuestion labels qtype qclass ++ rest) = .ok query ∧
        query.id = id ∧ query.flags = flags ∧ query.question.qtype = qtype ∧
        query.question.qclass = qclass ∧ query.question.name = dotted labels ∧
        query.questionBytes = encodeQuestion labels qtype qclass ∧
        query.raw = encodeHeader id flags ancount nscount arcount ++
          encodeQuestion labels qtype qclass ++ rest) ∧
    (∀ (raw : Bytes) (query : Query), Query.parse raw = .ok query →
      query.raw = raw ∧ headerLen ≤ query.question.endPos ∧
        query.question.endPos ≤ query.raw.length ∧
        ∃ labels, query.questionBytes =
            encodeQuestion labels query.question.qtype query.question.qclass ∧
          query.question.name = dotted labels) := by
  constructor
  · intro id flags ancount nscount arcount labels qtype qclass rest hquery hfits
    have hreads := reads_queryOf id flags ancount nscount arcount labels qtype qclass rest hquery
      (hfits.trans (by decide))
    exact ⟨_, Query.parse_of_reads hreads, rfl, rfl, rfl, rfl, rfl, hreads.questionBytes_eq, rfl⟩
  · intro raw query hparse
    obtain ⟨rfl, labels, hreads⟩ := (Query.parse_eq_ok_iff raw query).mp hparse
    have hend := hreads.endPos
    exact ⟨rfl, by omega, hreads.endPos_le, labels, hreads.questionBytes_eq, hreads.name⟩

/-- The name `www.Ads.home`. -/
def adsLabels : List Label :=
  [⟨[119, 119, 119], by decide, by decide⟩, ⟨[65, 100, 115], by decide, by decide⟩,
    ⟨[104, 111, 109, 101], by decide, by decide⟩]

/-- An additional record, as EDNS puts it behind a question. -/
def ednsRecord : Bytes := [0, 0, 41, 4, 208, 0, 0, 0, 0, 0, 0]

theorem parse_inverts_encode_edns :
    ∃ query : Query,
      Query.parse (encodeHeader 7 0x0100 0 0 1 ++ encodeQuestion adsLabels typeA classIn ++
        ednsRecord) = .ok query ∧
      query.id = 7 ∧ query.flags = 0x0100 ∧ query.question.qtype = typeA ∧
      query.question.qclass = classIn ∧ query.question.name = "www.ads.home".toList ∧
      query.questionBytes = encodeQuestion adsLabels typeA classIn ∧
      query.question.endPos ≤ query.raw.length := by
  obtain ⟨query, hparse, hid, hflags, hqtype, hqclass, hname, hbytes, hraw⟩ :=
    parse_inverts_encode.1 7 0x0100 0 0 1 adsLabels typeA classIn ednsRecord rfl (by decide)
  have hwithin := (parse_inverts_encode.2 _ query hparse).2.2.1
  have hdotted : dotted adsLabels = "www.ads.home".toList := by decide
  exact ⟨query, hparse, hid, hflags, hqtype, hqclass, hname.trans hdotted, hbytes, hwithin⟩

/-- What the parser makes of the query for `a`. -/
def testParsed : Query := ⟨7, 0x0100, ⟨['a'], typeA, classIn, 19⟩, Frontend.testQuery⟩

theorem parse_testQuery : Query.parse Frontend.testQuery = .ok testParsed := by decide

/-- The bits of the flags of a reply made here. -/
structure EchoedFlags (asked code flags : UInt16) : Prop where
  qr : flags &&& flagQr = flagQr
  opcode : flags &&& flagOpcode = asked &&& flagOpcode
  aa : flags &&& 0x0400 = 0
  tc : flags &&& 0x0200 = 0
  rd : flags &&& flagRd = asked &&& flagRd
  ra : flags &&& flagRa = flagRa
  reserved : flags &&& 0x0070 = 0
  rcode : flags &&& 0x000F = code

/-- The flags that `response` writes. -/
def responseFlags (asked code : UInt16) : UInt16 :=
  flagQr ||| (asked &&& flagOpcode) ||| (asked &&& flagRd) ||| flagRa ||| code

theorem responseFlags_and (asked code mask : UInt16) :
    responseFlags asked code &&& mask =
      (flagQr &&& mask) ||| (asked &&& (flagOpcode &&& mask)) ||| (asked &&& (flagRd &&& mask)) |||
        (flagRa &&& mask) ||| (code &&& mask) := by
  rw [responseFlags, or_and_distrib, or_and_distrib, or_and_distrib, or_and_distrib,
    UInt16.and_assoc, UInt16.and_assoc]

theorem echoedFlags (asked : UInt16) {code : UInt16} (hcode : code &&& 0x000F = code) :
    EchoedFlags asked code (responseFlags asked code) := by
  have hand : ∀ mask : UInt16, 0x000F &&& mask = 0 → code &&& mask = 0 := by
    intro mask hmask
    rw [← hcode, UInt16.and_assoc, hmask, UInt16.and_zero]
  have hmasks : ∀ mask : UInt16, ∀ q o d a : UInt16, flagQr &&& mask = q →
      flagOpcode &&& mask = o → flagRd &&& mask = d → flagRa &&& mask = a →
      responseFlags asked code &&& mask =
        q ||| (asked &&& o) ||| (asked &&& d) ||| a ||| (code &&& mask) := by
    intro mask q o d a hq ho hd ha
    rw [responseFlags_and, hq, ho, hd, ha]
  refine ⟨?_, ?_, ?_, ?_, ?_, ?_, ?_, ?_⟩
  · rw [hmasks flagQr flagQr 0 0 0 rfl rfl rfl rfl, hand _ rfl]
    simp
  · rw [hmasks flagOpcode 0 flagOpcode 0 0 rfl rfl rfl rfl, hand _ rfl]
    simp
  · rw [hmasks 0x0400 0 0 0 0 rfl rfl rfl rfl, hand _ rfl]
    simp
  · rw [hmasks 0x0200 0 0 0 0 rfl rfl rfl rfl, hand _ rfl]
    simp
  · rw [hmasks flagRd 0 0 flagRd 0 rfl rfl rfl rfl, hand _ rfl]
    simp
  · rw [hmasks flagRa 0 0 0 flagRa rfl rfl rfl rfl, hand _ rfl]
    simp
  · rw [hmasks 0x0070 0 0 0 0 rfl rfl rfl rfl, hand _ rfl]
    simp
  · rw [hmasks 0x000F 0 0 0 0 rfl rfl rfl rfl, hcode]
    simp

/-- A message with its QR bit cleared. -/
def clearQr (message : Bytes) : Bytes :=
  match be16 message 2 with
  | some flags => message.take 2 ++ toBe16 (flags &&& ~~~flagQr) ++ message.drop 4
  | none => message

theorem clearQr_encodeHeader (id flags ancount nscount arcount : UInt16) (rest : Bytes) :
    clearQr (encodeHeader id flags ancount nscount arcount ++ rest) =
      encodeHeader id (flags &&& ~~~flagQr) ancount nscount arcount ++ rest := by
  have hflags := (headerIs_encodeHeader id flags ancount nscount arcount rest).flags
  have hfour : ∀ bytes : Bytes, (toBe16 id ++ (toBe16 flags ++ bytes)).drop 4 = bytes := by
    intro bytes
    rw [← List.append_assoc]
    exact List.drop_left' (by simp)
  simp only [clearQr, hflags]
  simp only [encodeHeader, List.append_assoc, take_toBe16_append, hfour]

/-- A reply that echoes its query. -/
structure Echoes (query : Query) (code : UInt16) (reply : Bytes) : Prop where
  header : ∃ flags ancount, HeaderIs reply query.id flags ancount 0 0 ∧
    EchoedFlags query.flags code flags
  question : (reply.drop headerLen).take query.questionBytes.length = query.questionBytes
  again : ∃ query' : Query, Query.parse (clearQr reply) = .ok query' ∧ query'.id = query.id ∧
    query'.question = query.question

theorem Query.response_eq (query : Query) (code : UInt16) (answers : Bytes) (ancount : UInt16) :
    query.response code answers ancount =
      encodeHeader query.id (responseFlags query.flags code) ancount 0 0 ++
        (query.questionBytes ++ answers) := by
  rw [← List.append_assoc]
  rfl

theorem Query.Reads.echoes {query : Query} {labels : List Label} (h : query.Reads labels)
    {code : UInt16} (hcode : code &&& 0x000F = code) (answers : Bytes) (ancount : UInt16) :
    Echoes query code (query.response code answers ancount) := by
  rw [Query.response_eq]
  refine ⟨⟨_, ancount, headerIs_encodeHeader _ _ _ _ _ _, echoedFlags query.flags hcode⟩, ?_, ?_⟩
  · rw [List.drop_left' (length_encodeHeader _ _ _ _ _), List.take_left]
  · have hclear : (responseFlags query.flags code &&& ~~~flagQr) &&& flagQr = 0 := by
      rw [UInt16.and_assoc]
      exact UInt16.and_zero
    have hreads := reads_queryOf query.id (responseFlags query.flags code &&& ~~~flagQr) ancount 0 0
      labels query.question.qtype query.question.qclass answers hclear
      (by have := h.fits; rw [length_encodeName]; omega)
    have hparse := Query.parse_of_reads hreads
    rw [queryOf, List.append_assoc, ← h.questionBytes_eq] at hparse
    rw [clearQr_encodeHeader]
    refine ⟨_, hparse, rfl, ?_⟩
    have hname := h.name
    have hend := h.endPos
    obtain ⟨id, flags, ⟨name, qtype, qclass, endPos⟩, raw⟩ := query
    cases hname
    cases hend
    rfl

/-- Every reply made here for a query echoes it, whatever followed its question. -/
theorem replies_echo {raw : Bytes} {query : Query} (h : Query.parse raw = .ok query) :
    Echoes query rcodeNxdomain query.nxdomain ∧ Echoes query rcodeServfail query.servfail ∧
      ∀ addrs : List IpAddr, addrs.length < 65536 →
        Echoes query rcodeNoerror (query.answer addrs) := by
  obtain ⟨-, labels, hreads⟩ := (Query.parse_eq_ok_iff raw query).mp h
  exact ⟨hreads.echoes rfl _ _, hreads.echoes rfl _ _, fun _ _ => hreads.echoes rfl _ _⟩

/-- A query with an EDNS record behind its question. -/
def ednsQuery : Bytes :=
  [0, 7, 1, 0, 0, 1, 0, 0, 0, 0, 0, 1, 1, 97, 0, 0, 1, 0, 1, 0, 0, 41, 16, 0, 0, 0, 0, 0, 0, 0]

theorem replies_echo_edns :
    ∃ query, Query.parse ednsQuery = .ok query ∧
      Echoes query rcodeNxdomain query.nxdomain ∧ Echoes query rcodeServfail query.servfail ∧
      Echoes query rcodeNoerror (query.answer [loopback]) := by
  have hparse : Query.parse ednsQuery =
      .ok ⟨7, 0x0100, ⟨['a'], typeA, classIn, 19⟩, ednsQuery⟩ := by decide
  obtain ⟨hnxdomain, hservfail, hanswer⟩ := replies_echo hparse
  exact ⟨_, hparse, hnxdomain, hservfail, hanswer [loopback] (by decide)⟩

end Deezns.Dns
