import Deezns.IdentifyLaws

/-!
# IPv4-mapped addresses in the socket lookup

Writing an IPv4 address in its mapped form never makes a row fit better, and
makes it fit worse only where the row leans on a wildcard so written: the
comparison of hosts is canonical, the test for the wildcard is not.
-/
namespace Deezns

/-- The second address is the first, or its IPv4-mapped form. -/
inductive IpAddr.MappedTo : IpAddr → IpAddr → Prop where
  | same (a : IpAddr) : MappedTo a a
  | mapped (a : Ipv4Addr) : MappedTo (.v4 a) (.v6 a.toIpv6Mapped)

def SocketAddr.MappedTo (a b : SocketAddr) : Prop := a.port = b.port ∧ a.ip.MappedTo b.ip

def SocketEntry.MappedTo (e e' : SocketEntry) : Prop :=
  e.localAddr.MappedTo e'.localAddr ∧ e.remoteAddr.MappedTo e'.remoteAddr ∧
    e.uid = e'.uid ∧ e.inode = e'.inode

/-- The wildcard `0.0.0.0` is written in its mapped form. -/
def WildcardReplaced (a b : IpAddr) : Prop := a = IpAddr.unspecifiedV4 ∧ b ≠ a

instance (a b : IpAddr) : Decidable (WildcardReplaced a b) := inferInstanceAs (Decidable (_ ∧ _))

theorem IpAddr.MappedTo.toCanonical_eq {a b : IpAddr} (h : a.MappedTo b) :
    b.toCanonical = a.toCanonical := by
  cases h with
  | same a => rfl
  | mapped a =>
    rw [IpAddr.toCanonical_mapped]
    rfl

theorem IpAddr.MappedTo.isUnspecified_le {a b : IpAddr} (h : a.MappedTo b)
    (hb : b.isUnspecified = true) : a.isUnspecified = true := by
  cases h with
  | same a => exact hb
  | mapped a => simp at hb

theorem IpAddr.MappedTo.isUnspecified_eq {a b : IpAddr} (h : a.MappedTo b)
    (hw : ¬ WildcardReplaced a b) : b.isUnspecified = a.isUnspecified := by
  cases h with
  | same a => rfl
  | mapped a =>
    rw [IpAddr.isUnspecified_mapped]
    symm
    rw [Bool.eq_false_iff]
    intro hunspec
    exact hw ⟨(IpAddr.isUnspecified_v4_iff a).mp hunspec, by simp⟩

theorem WildcardReplaced.isUnspecified_eq_false {a b : IpAddr} (hw : WildcardReplaced a b)
    (h : a.MappedTo b) : b.isUnspecified = false := by
  cases h with
  | same a => exact absurd rfl hw.2
  | mapped a => exact IpAddr.isUnspecified_mapped a

theorem sameHost_mapped {a a' b b' : IpAddr} (ha : a.MappedTo a') (hb : b.MappedTo b') :
    sameHost a' b' = sameHost a b := by
  rw [sameHost, sameHost, ha.toCanonical_eq, hb.toCanonical_eq]

namespace SocketEntry

/-- When a row fits, and how well. -/
theorem fit_eq_some_iff (entry : SocketEntry) (peer server : SocketAddr) (score : Nat) :
    entry.fit peer server = some score ↔ entry.localAddr.port = peer.port ∧
      (entry.localExact peer = true ∨ entry.localAddr.ip.isUnspecified = true) ∧
      (entry.unconnected = true ∨ entry.remoteExact server = true) ∧
      score = (entry.remoteExact server).toNat * 2 + (entry.localExact peer).toNat := by
  by_cases hport : entry.localAddr.port = peer.port
  · cases hl : entry.localExact peer <;> cases hu : entry.localAddr.ip.isUnspecified <;>
      cases hc : entry.unconnected <;> cases hr : entry.remoteExact server <;>
      simp [fit, hport, hl, hu, hc, hr, eq_comm]
  · simp [fit, hport]

/-- The row fits only by a wildcard that is written in its mapped form. -/
def LeansOnWildcard (entry entry' : SocketEntry) (peer server server' : SocketAddr) : Prop :=
  (WildcardReplaced entry.localAddr.ip entry'.localAddr.ip ∧ entry.localExact peer = false) ∨
  (WildcardReplaced entry.remoteAddr.ip entry'.remoteAddr.ip ∧
    entry.remoteExact server = false) ∨
  (WildcardReplaced server.ip server'.ip ∧ entry.remoteAddr.port = server.port ∧
    sameHost entry.remoteAddr.ip server.ip = false)

instance (entry entry' : SocketEntry) (peer server server' : SocketAddr) :
    Decidable (LeansOnWildcard entry entry' peer server server') :=
  inferInstanceAs (Decidable (_ ∨ _))

section Mapped

variable {entry entry' : SocketEntry} {peer peer' server server' : SocketAddr}

theorem localExact_mapped (he : entry.MappedTo entry') (hp : peer.MappedTo peer') :
    entry'.localExact peer' = entry.localExact peer := sameHost_mapped he.1.2 hp.2

theorem remoteExact_le (he : entry.MappedTo entry') (hs : server.MappedTo server')
    (h : entry'.remoteExact server' = true) : entry.remoteExact server = true := by
  obtain ⟨_, ⟨hport, hremote⟩, _⟩ := he
  simp only [remoteExact, Bool.and_eq_true, Bool.or_eq_true, beq_iff_eq,
    sameHost_mapped hremote hs.2, ← hport, ← hs.1] at h ⊢
  exact ⟨h.1, h.2.imp_left hs.2.isUnspecified_le⟩

theorem remoteExact_mapped (he : entry.MappedTo entry') (hs : server.MappedTo server')
    (h : ¬ (WildcardReplaced server.ip server'.ip ∧ entry.remoteAddr.port = server.port ∧
      sameHost entry.remoteAddr.ip server.ip = false)) :
    entry'.remoteExact server' = entry.remoteExact server := by
  obtain ⟨_, ⟨hport, hremote⟩, _⟩ := he
  rw [remoteExact, remoteExact, sameHost_mapped hremote hs.2, ← hport, ← hs.1]
  by_cases hw : WildcardReplaced server.ip server'.ip
  · by_cases hp : entry.remoteAddr.port = server.port
    · have hhost : sameHost entry.remoteAddr.ip server.ip = true := by
        simpa [hw, hp] using h
      simp [hhost]
    · rw [beq_eq_false_iff_ne.mpr hp, Bool.false_and, Bool.false_and]
  · rw [hs.2.isUnspecified_eq hw]

theorem unconnected_le (he : entry.MappedTo entry') (h : entry'.unconnected = true) :
    entry.unconnected = true := by
  obtain ⟨_, ⟨hport, hremote⟩, _⟩ := he
  simp only [unconnected, Bool.and_eq_true, beq_iff_eq, ← hport] at h ⊢
  exact ⟨h.1, hremote.isUnspecified_le h.2⟩

theorem unconnected_mapped (he : entry.MappedTo entry')
    (hw : ¬ WildcardReplaced entry.remoteAddr.ip entry'.remoteAddr.ip) :
    entry'.unconnected = entry.unconnected := by
  obtain ⟨_, ⟨hport, hremote⟩, _⟩ := he
  rw [unconnected, unconnected, ← hport, hremote.isUnspecified_eq hw]

/-- Mapped forms never make a row fit better. -/
theorem fit_mapped_le (he : entry.MappedTo entry') (hp : peer.MappedTo peer')
    (hs : server.MappedTo server') (score' : Nat) (h : entry'.fit peer' server' = some score') :
    ∃ score, entry.fit peer server = some score ∧ score' ≤ score := by
  rw [fit_eq_some_iff] at h
  obtain ⟨hport, hlocal, hremote, rfl⟩ := h
  rw [localExact_mapped he hp] at hlocal ⊢
  refine ⟨_, (fit_eq_some_iff _ _ _ _).mpr ⟨?_, ?_, ?_, rfl⟩, ?_⟩
  · rw [he.1.1, hport, hp.1]
  · exact hlocal.imp_right he.1.2.isUnspecified_le
  · exact hremote.imp (unconnected_le he) (remoteExact_le he hs)
  · have hle : (entry'.remoteExact server').toNat ≤ (entry.remoteExact server).toNat :=
      Bool.toNat_le_toNat (remoteExact_le he hs)
    omega

theorem fit_mapped_eq (he : entry.MappedTo entry') (hp : peer.MappedTo peer')
    (hs : server.MappedTo server') (h : ¬ entry.LeansOnWildcard entry' peer server server') :
    entry'.fit peer' server' = entry.fit peer server := by
  simp only [LeansOnWildcard, not_or] at h
  obtain ⟨hlocal, hremote, hserver⟩ := h
  have hre := remoteExact_mapped he hs hserver
  have hle := localExact_mapped he hp
  have hunspec : entry.localExact peer = false →
      entry'.localAddr.ip.isUnspecified = entry.localAddr.ip.isUnspecified :=
    fun hl => he.1.2.isUnspecified_eq (fun hw => hlocal ⟨hw, hl⟩)
  have hunconn : entry.remoteExact server = false → entry'.unconnected = entry.unconnected :=
    fun hr => unconnected_mapped he (fun hw => hremote ⟨hw, hr⟩)
  simp only [fit, hre, hle, ← he.1.1, ← hp.1]
  cases hl : entry.localExact peer <;> cases hr : entry.remoteExact server <;>
    simp_all

/-- A row that leans on a wildcard stays a candidate at port 0 only. -/
theorem server_port_of_leansOnWildcard (he : entry.MappedTo entry') (hp : peer.MappedTo peer')
    (hs : server.MappedTo server') (h : entry.LeansOnWildcard entry' peer server server')
    (score' : Nat) (hfit : entry'.fit peer' server' = some score') : server.port = 0 := by
  rw [fit_eq_some_iff, localExact_mapped he hp] at hfit
  obtain ⟨_, hlocal, hremote, _⟩ := hfit
  rcases h with ⟨hw, hl⟩ | ⟨hw, hr⟩ | ⟨hw, hport, hhost⟩
  · simp [hl, hw.isUnspecified_eq_false he.1.2] at hlocal
  · have hr' : entry'.remoteExact server' ≠ true := by
      intro hr'
      rw [remoteExact_le he hs hr'] at hr
      cases hr
    simp [hr', unconnected, hw.isUnspecified_eq_false he.2.1.2] at hremote
  · have hr' : entry'.remoteExact server' = false := by
      simp [remoteExact, sameHost_mapped he.2.1.2 hs.2, hhost, hw.isUnspecified_eq_false hs.2]
    have hunconn : entry'.unconnected = true := by simpa [hr'] using hremote
    have hzero : entry.remoteAddr.port = 0 := by
      have := unconnected_le he hunconn
      simp only [unconnected, Bool.and_eq_true, beq_iff_eq] at this
      exact this.1
    rw [← hport, hzero]

end Mapped

end SocketEntry

/-- The rows of a table, each with what it is replaced by, that fit best. -/
def bestPairs (rows : List (SocketEntry × SocketEntry)) (peer server : SocketAddr) :
    List (SocketEntry × SocketEntry) :=
  Best.bestOf (fun pair => pair.1.fit peer server) rows

theorem map_bestPairs (rows : List (SocketEntry × SocketEntry)) (peer server : SocketAddr) :
    (bestPairs rows peer server).map Prod.fst = bestFitting (rows.map Prod.fst) peer server := by
  rw [bestPairs, bestFitting, Best.bestOf_map]

/-- Outcomes that agree up to the replacement of rows. -/
inductive SocketMatch.SameUpTo (rows : List (SocketEntry × SocketEntry)) :
    SocketMatch → SocketMatch → Prop where
  | one (pair : SocketEntry × SocketEntry) (h : pair ∈ rows) :
      SameUpTo rows (.one pair.1) (.one pair.2)
  | sameUser (uid : UInt32) : SameUpTo rows (.sameUser uid) (.sameUser uid)
  | ambiguous : SameUpTo rows .ambiguous .ambiguous
  | none : SameUpTo rows .none .none

/-- No best row leans on a wildcard that is replaced; or the rows that fit best
afterwards happen to agree with them. -/
def ReplacementHarmless (rows : List (SocketEntry × SocketEntry))
    (peer server peer' server' : SocketAddr) : Prop :=
  (∀ pair ∈ bestPairs rows peer server,
    ¬ pair.1.LeansOnWildcard pair.2 peer server server') ∨
  (server.port = 0 ∧ ∃ pair ∈ rows, bestFitting (rows.map Prod.fst) peer server = [pair.1] ∧
    bestFitting (rows.map Prod.snd) peer' server' = [pair.2]) ∨
  (∃ uid, SeveralOf uid (bestFitting (rows.map Prod.fst) peer server) ∧
    SeveralOf uid (bestFitting (rows.map Prod.snd) peer' server')) ∨
  (Mixed (bestFitting (rows.map Prod.fst) peer server) ∧
    Mixed (bestFitting (rows.map Prod.snd) peer' server'))

/-- The same rows, before and after, are the same outcome. -/
theorem SocketMatch.sameUpTo_ofBest {rows best : List (SocketEntry × SocketEntry)}
    (hsub : ∀ pair ∈ best, pair ∈ rows) (huid : ∀ pair ∈ best, pair.1.uid = pair.2.uid) :
    SameUpTo rows (ofBest (best.map Prod.fst)) (ofBest (best.map Prod.snd)) := by
  rcases ofBest_cases (best.map Prod.fst) with ⟨h, _⟩ | ⟨e, h, _⟩ | ⟨uid, h, hof⟩ | ⟨h, hof⟩
  · rw [List.map_eq_nil_iff.mp h]
    exact .none
  · obtain ⟨pair, hpair, rfl⟩ := List.map_eq_singleton_iff.mp h
    subst hpair
    exact .one pair (hsub pair (by simp))
  · have h' : SeveralOf uid (best.map Prod.snd) := by
      refine ⟨by simpa using h.1, ?_⟩
      intro row hrow
      obtain ⟨pair, hpair, rfl⟩ := List.mem_map.mp hrow
      rw [← huid pair hpair]
      exact h.2 pair.1 (List.mem_map_of_mem hpair)
    rw [hof, ofBest_of_severalOf h']
    exact .sameUser uid
  · have h' : Mixed (best.map Prod.snd) := by
      obtain ⟨_, hrow, _, hrow', hne⟩ := h
      obtain ⟨pair, hpair, rfl⟩ := List.mem_map.mp hrow
      obtain ⟨pair', hpair', rfl⟩ := List.mem_map.mp hrow'
      refine ⟨pair.2, List.mem_map_of_mem hpair, pair'.2, List.mem_map_of_mem hpair', ?_⟩
      rwa [← huid pair hpair, ← huid pair' hpair']
    rw [hof, ofBest_of_mixed h']
    exact .ambiguous

section Replacement

variable {rows : List (SocketEntry × SocketEntry)} {peer peer' server server' : SocketAddr}

theorem bestPairs_mapped (hrows : ∀ pair ∈ rows, pair.1.MappedTo pair.2)
    (hp : peer.MappedTo peer') (hs : server.MappedTo server')
    (h : ∀ pair ∈ bestPairs rows peer server,
      ¬ pair.1.LeansOnWildcard pair.2 peer server server') :
    (bestPairs rows peer server).map Prod.snd =
      bestFitting (rows.map Prod.snd) peer' server' := by
  rw [bestFitting, Best.bestOf_map, bestPairs]
  congr 1
  symm
  apply Best.bestOf_congr_of_le
  · intro pair hpair score' hscore'
    exact SocketEntry.fit_mapped_le (hrows pair hpair) hp hs score' hscore'
  · intro pair hpair
    have hmem := ((Best.mem_bestOf _ _ _).mp hpair).1
    exact SocketEntry.fit_mapped_eq (hrows pair hmem) hp hs (h pair hpair)

/-- A row that alone fits best is the best pair, alone. -/
theorem bestPairs_eq_singleton {pair : SocketEntry × SocketEntry} (hpair : pair ∈ rows)
    (h : bestFitting (rows.map Prod.fst) peer server = [pair.1]) :
    bestPairs rows peer server = [pair] := by
  rw [← map_bestPairs] at h
  obtain ⟨top, htop, hfst⟩ := List.map_eq_singleton_iff.mp h
  have htopmem : top ∈ bestPairs rows peer server := by simp [htop]
  have hmem : pair ∈ bestPairs rows peer server :=
    Best.mem_bestOf_of_score_eq htopmem hpair (by rw [hfst])
  rw [htop, List.mem_singleton] at hmem
  rw [htop, hmem]

/-- The outcome is kept exactly when the replacement is harmless to the rows
that fit best. -/
theorem findSocket_mapped_iff (hrows : ∀ pair ∈ rows, pair.1.MappedTo pair.2)
    (hp : peer.MappedTo peer') (hs : server.MappedTo server') :
    SocketMatch.SameUpTo rows (findSocket (rows.map Prod.fst) peer server)
        (findSocket (rows.map Prod.snd) peer' server') ↔
      ReplacementHarmless rows peer server peer' server' := by
  rw [findSocket_eq, findSocket_eq]
  constructor
  · intro h
    generalize hm : SocketMatch.ofBest (bestFitting (rows.map Prod.fst) peer server) = m at h
    generalize hm' : SocketMatch.ofBest (bestFitting (rows.map Prod.snd) peer' server') = m' at h
    cases h with
    | one pair hpair =>
      rw [SocketMatch.ofBest_eq_one_iff] at hm hm'
      by_cases hlean : pair.1.LeansOnWildcard pair.2 peer server server'
      · have hmem : pair.2 ∈ bestFitting (rows.map Prod.snd) peer' server' := by simp [hm']
        obtain ⟨_, score', hfit, _⟩ := (Best.mem_bestOf _ _ _).mp hmem
        have hport := SocketEntry.server_port_of_leansOnWildcard (hrows pair hpair) hp hs hlean
          score' hfit
        exact .inr (.inl ⟨hport, pair, hpair, hm, hm'⟩)
      · left
        rw [bestPairs_eq_singleton hpair hm]
        simpa using hlean
    | sameUser uid =>
      rw [SocketMatch.ofBest_eq_sameUser_iff] at hm hm'
      exact .inr (.inr (.inl ⟨uid, hm, hm'⟩))
    | ambiguous =>
      rw [SocketMatch.ofBest_eq_ambiguous_iff] at hm hm'
      exact .inr (.inr (.inr ⟨hm, hm'⟩))
    | none =>
      rw [SocketMatch.ofBest_eq_none_iff, ← map_bestPairs, List.map_eq_nil_iff] at hm
      left
      simp [hm]
  · rintro (hall | ⟨_, pair, hpair, h, h'⟩ | ⟨uid, h, h'⟩ | ⟨h, h'⟩)
    · rw [← map_bestPairs, ← bestPairs_mapped hrows hp hs hall]
      apply SocketMatch.sameUpTo_ofBest
      · exact fun pair hpair => ((Best.mem_bestOf _ _ _).mp hpair).1
      · exact fun pair hpair => (hrows pair ((Best.mem_bestOf _ _ _).mp hpair).1).2.2.1
    · rw [h, h']
      exact .one pair hpair
    · rw [SocketMatch.ofBest_of_severalOf h, SocketMatch.ofBest_of_severalOf h']
      exact .sameUser uid
    · rw [SocketMatch.ofBest_of_mixed h, SocketMatch.ofBest_of_mixed h']
      exact .ambiguous

end Replacement

/-- The mapped form of an address. -/
def IpAddr.mapped : IpAddr → IpAddr
  | .v4 a => .v6 a.toIpv6Mapped
  | .v6 a => .v6 a

theorem IpAddr.mappedTo_mapped (a : IpAddr) : a.MappedTo a.mapped := by
  cases a with
  | v4 a => exact .mapped a
  | v6 a => exact .same _

/-- A row of a socket bound to the wildcard, in either form. -/
def bound (ip : IpAddr) : SocketEntry := ⟨⟨ip, 5000⟩, ⟨IpAddr.unspecifiedV4, 0⟩, 1000, 7⟩

/-- A socket connected over both families' tables. -/
def connectedMapped : SocketEntry :=
  ⟨⟨loopback.mapped, 5001⟩, ⟨loopback.mapped, 53⟩, 1000, 7⟩

/-- A wildcard socket of another user at the same port, in either form. -/
def competing (ip : IpAddr) : SocketEntry := ⟨⟨ip, 5001⟩, ⟨IpAddr.unspecifiedV4, 0⟩, 2000, 8⟩

/-- Rows and what they are replaced by. -/
def replacedRows : List (SocketEntry × SocketEntry) :=
  [(competing IpAddr.unspecifiedV4, competing IpAddr.unspecifiedV4.mapped),
    (bound IpAddr.unspecifiedV4, bound IpAddr.unspecifiedV4), (connected, connectedMapped)]

theorem findSocket_mapped_competing :
    findSocket [competing IpAddr.unspecifiedV4] ⟨loopback, 5001⟩ ⟨loopback, 53⟩ =
      .one (competing IpAddr.unspecifiedV4) ∧
    SocketMatch.SameUpTo replacedRows
      (findSocket (replacedRows.map Prod.fst) ⟨loopback, 5001⟩ ⟨loopback, 53⟩)
      (findSocket (replacedRows.map Prod.snd) ⟨loopback, 5001⟩ ⟨loopback.mapped, 53⟩) := by
  have hrows : ∀ pair ∈ replacedRows, pair.1.MappedTo pair.2 := by
    simp only [replacedRows, List.forall_mem_cons]
    refine ⟨?_, ?_, ?_, by simp⟩
    · exact ⟨⟨rfl, IpAddr.mappedTo_mapped _⟩, ⟨rfl, .same _⟩, rfl, rfl⟩
    · exact ⟨⟨rfl, .same _⟩, ⟨rfl, .same _⟩, rfl, rfl⟩
    · exact ⟨⟨rfl, loopback.mappedTo_mapped⟩, ⟨rfl, loopback.mappedTo_mapped⟩, rfl, rfl⟩
  have hserver : SocketAddr.MappedTo ⟨loopback, 53⟩ ⟨loopback.mapped, 53⟩ :=
    ⟨rfl, loopback.mappedTo_mapped⟩
  refine ⟨by decide, (findSocket_mapped_iff hrows ⟨rfl, .same _⟩ hserver).mpr ?_⟩
  left
  decide

/-- Bound to `::ffff:0.0.0.0` a socket is not found. -/
theorem findSocket_misses_mapped_wildcard :
    (bound IpAddr.unspecifiedV4).MappedTo (bound IpAddr.unspecifiedV4.mapped) ∧
    findSocket [bound IpAddr.unspecifiedV4] ⟨loopback, 5000⟩ ⟨loopback, 53⟩ =
      .one (bound IpAddr.unspecifiedV4) ∧
    findSocket [bound IpAddr.unspecifiedV4.mapped] ⟨loopback, 5000⟩ ⟨loopback, 53⟩ = .none :=
  ⟨⟨⟨rfl, IpAddr.mappedTo_mapped _⟩, ⟨rfl, .same _⟩, rfl, rfl⟩, by decide, by decide⟩

end Deezns
