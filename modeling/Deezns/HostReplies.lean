import Deezns.NscdFrontend

/-!
# Host replies, whole and cut

What the real nscd answers to a lookup of a host by name: a header, the name, a
length for each alias, the addresses and the aliases. The check before relaying
counts all of it but the aliases.
-/
namespace Deezns.Nscd

open Octets (Bytes NativeEndian writeNe)

/-- A check that accepts bytes and none of their proper fronts. -/
def TellsWhole (valid : Bytes → Bool) (whole : Bytes) : Prop :=
  valid whole = true ∧ ∀ p, p <+: whole → p ≠ whole → valid p = false

/-- A check that asks for a length tells the whole where that is all of it. -/
theorem tellsWhole_iff {valid : Bytes → Bool} {whole : Bytes} {n : Nat} (hn : n ≤ whole.length)
    (h : ∀ p, p <+: whole → (valid p = true ↔ n ≤ p.length)) :
    TellsWhole valid whole ↔ n = whole.length := by
  constructor
  · rintro ⟨_, hcut⟩
    by_contra hne
    have hlen : (whole.take n).length = n := List.length_take_of_le hn
    have hfront := List.take_prefix n whole
    have hvalid := (h _ hfront).mpr (by omega)
    rw [hcut _ hfront (fun heq => hne (by rw [← hlen, heq]))] at hvalid
    cases hvalid
  · rintro rfl
    refine ⟨(h _ (List.prefix_refl _)).mpr le_rfl, ?_⟩
    intro p hp hne
    rw [Bool.eq_false_iff]
    intro hvalid
    exact hne (hp.eq_of_length_le ((h p hp).mp hvalid))

/-- `hst_response_header` of a host that was found, and what stands behind it. -/
structure Hostent where
  name : Bytes
  aliases : List Bytes
  family : Int32
  length : Nat
  addrs : List Bytes
  error : Int32
  length_eq : length = 4 ∨ length = 16
  addrs_eq : ∀ addr ∈ addrs, addr.length = length
  name_lt : name.length < 2 ^ 31
  aliases_lt : aliases.length < 2 ^ 31
  alias_lt : ∀ name ∈ aliases, name.length < 2 ^ 31
  addrs_lt : addrs.length < 2 ^ 31

/-- An answer in full: there is no such host, or what is known of it. -/
inductive HostReply where
  | notFound (error : Int32)
  | found (host : Hostent)

def HostReply.aliases : HostReply → List Bytes
  | .notFound _ => []
  | .found host => host.aliases

/-- How much of a reply the check asks for. -/
def Hostent.checkedLen (host : Hostent) : Nat :=
  hstHeaderLen + host.name.length + 4 * host.aliases.length + host.addrs.length * host.length

theorem Hostent.length_flatten_addrs (host : Hostent) :
    host.addrs.flatten.length = host.addrs.length * host.length := by
  rw [List.length_flatten, List.map_congr_left host.addrs_eq, List.map_const',
    List.sum_replicate_nat]

section
variable [NativeEndian]

def Hostent.header (host : Hostent) : Bytes :=
  writeNe [version, 1, Int32.ofNat host.name.length, Int32.ofNat host.aliases.length, host.family,
    Int32.ofNat host.length, Int32.ofNat host.addrs.length, host.error]

def Hostent.body (host : Hostent) : Bytes :=
  host.name ++ writeNe (host.aliases.map (fun a => Int32.ofNat a.length)) ++
    host.addrs.flatten ++ host.aliases.flatten

def HostReply.encode : HostReply → Bytes
  | .notFound error => hstNotFound error
  | .found host => host.header ++ host.body

@[simp] theorem Hostent.length_header (host : Hostent) : host.header.length = hstHeaderLen := by
  simp [Hostent.header, hstHeaderLen]

theorem Hostent.length_encode (host : Hostent) :
    (HostReply.found host).encode.length = host.checkedLen + host.aliases.flatten.length := by
  simp only [HostReply.encode, Hostent.body, Hostent.checkedLen, List.length_append,
    Hostent.length_header, Octets.length_writeNe, List.length_map, host.length_flatten_addrs]
  omega

/-- Less than a header is never relayed. -/
theorem validHostReply_short {ty : RequestType} (hty : ty ≠ .getAi) {reply : Bytes}
    (h : reply.length < hstHeaderLen) : validHostReply ty reply = false := by
  have hlen : ((reply.length : Int) < (hstHeaderLen : Int)) := by exact_mod_cast h
  unfold validHostReply
  split
  · split
    · rfl
    · cases ty <;> first | exact absurd rfl hty | exact if_pos hlen
  · rfl

/-- Of a positive reply everything in front of the aliases has to be there. -/
theorem validHostReply_front_iff {ty : RequestType} (hty : ty ≠ .getAi) (host : Hostent)
    {p : Bytes} (hp : p <+: (HostReply.found host).encode) :
    validHostReply ty p = true ↔ host.checkedLen ≤ p.length := by
  by_cases hshort : p.length < hstHeaderLen
  · rw [validHostReply_short hty hshort, Hostent.checkedLen]
    constructor
    · intro h
      cases h
    · intro hle
      omega
  · have hheader : host.header <+: p := by
      apply List.prefix_of_prefix_length_le (List.prefix_append _ _) hp
      rw [Hostent.length_header]
      omega
    obtain ⟨front, rfl⟩ := hheader
    have hname := Int32.toInt_ofNat_of_lt host.name_lt
    have haliases := Int32.toInt_ofNat_of_lt host.aliases_lt
    have haddrs := Int32.toInt_ofNat_of_lt host.addrs_lt
    have hlength : (Int32.ofNat host.length).toInt = host.length := by
      apply Int32.toInt_ofNat_of_lt
      have := host.length_eq
      omega
    rw [List.length_append, Hostent.length_header, Hostent.checkedLen, Hostent.header,
      validHostReply_hst_iff hty, hname, haliases, haddrs, hlength]
    have hcases := host.length_eq
    constructor
    · rintro ⟨_, hzero | ⟨_, _, _, _, _, hle⟩⟩
      · cases hzero
      · rw [← Int.natCast_mul] at hle
        omega
    · intro hle
      refine ⟨rfl, .inr ⟨rfl, by omega, by omega, by omega, by omega, ?_⟩⟩
      rw [← Int.natCast_mul]
      omega

theorem validHostReply_notFound_front_iff {ty : RequestType} (hty : ty ≠ .getAi) (error : Int32)
    {p : Bytes} (hp : p <+: hstNotFound error) :
    validHostReply ty p = true ↔ hstHeaderLen ≤ p.length := by
  have hlen := length_hstNotFound error
  by_cases hshort : p.length < hstHeaderLen
  · rw [validHostReply_short hty hshort]
    constructor
    · intro h
      cases h
    · intro hle
      omega
  · have heq : p = hstNotFound error := hp.eq_of_length_le (by omega)
    rw [heq, hlen, ← notFound_of_ne_getAi hty, validHostReply_notFound]
    simp

theorem HostReply.tellsWhole_iff {ty : RequestType} (hty : ty ≠ .getAi) (reply : HostReply) :
    TellsWhole (validHostReply ty) reply.encode ↔ reply.aliases.flatten = [] := by
  cases reply with
  | notFound error =>
    have hlen := length_hstNotFound error
    have hfronts : TellsWhole (validHostReply ty) (hstNotFound error) ↔ _ :=
      Nscd.tellsWhole_iff hlen.ge (fun _ => validHostReply_notFound_front_iff hty error)
    exact hfronts.trans ⟨fun _ => rfl, fun _ => hlen.symm⟩
  | found host =>
    have hlen := host.length_encode
    have hle : host.checkedLen ≤ (HostReply.found host).encode.length := by omega
    rw [Nscd.tellsWhole_iff hle (fun _ => validHostReply_front_iff hty host), hlen,
      HostReply.aliases, ← List.length_eq_zero_iff]
    omega

/-- A reply is told from what is left of it when it is cut exactly if there are no
aliases to lose. -/
theorem validHostReply_tellsWhole_iff (ty : RequestType)
    (hty : ty = .getHostByName ∨ ty = .getHostByNameV6) (reply : HostReply) :
    TellsWhole (validHostReply ty) reply.encode ↔ reply.aliases.flatten = [] := by
  have hnot : ty ≠ .getAi := by
    rintro rfl
    revert hty
    decide
  exact reply.tellsWhole_iff hnot

end

/-- A host with the address 127.0.0.1 and the given aliases. -/
@[reducible] def local4 (aliases : List Bytes) (hcount : aliases.length < 2 ^ 31)
    (hlen : ∀ a ∈ aliases, a.length < 2 ^ 31) : HostReply :=
  .found ⟨[97, 0], aliases, afInet, 4, [[127, 0, 0, 1]], 0, by decide, by simp, by decide, hcount,
    hlen, by decide⟩

theorem validHostReply_tellsWhole_local4 :
    TellsWhole (@validHostReply littleEndian .getHostByName)
      (@HostReply.encode littleEndian (local4 [] (by decide) (by simp))) :=
  (@validHostReply_tellsWhole_iff littleEndian .getHostByName (.inl rfl) _).mpr rfl

/-- Without its last byte an alias is not a string, and the reply goes to the
client. -/
theorem forwardHost_relays_cut_alias :
    let whole := @HostReply.encode littleEndian (local4 [[98, 0]] (by decide) (by simp))
    let cut := whole.dropLast
    ¬ TellsWhole (@validHostReply littleEndian .getHostByName) whole ∧
      whole = cut ++ [0] ∧ @validHostReply littleEndian .getHostByName cut = true ∧
      (@forwardHost littleEndian (.answered ⟨cut, .eof⟩)
        ⟨.getHostByName, [97, 0], @Request.encode littleEndian .getHostByName [97, 0]⟩).value =
          .bytes cut := by
  intro whole cut
  have hwhole : whole = cut ++ [0] := by decide
  have hcut : @validHostReply littleEndian .getHostByName cut = true := by decide
  refine ⟨?_, hwhole, hcut, by decide⟩
  rintro ⟨_, htells⟩
  have hrejected := htells cut (List.dropLast_prefix _) (by decide)
  rw [hcut] at hrejected
  cases hrejected

end Deezns.Nscd
