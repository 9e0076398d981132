import Deezns.IdentifyLaws

/-!
# The rows that fit best

What the lookup says is what the rows of the highest fit are: none, one, several
of one user, or rows of different users. So neither the order of the tables nor
a row that fits worse makes a difference to whom a query is attributed.
-/
namespace Deezns

theorem mem_bestFitting (entries : List SocketEntry) (peer server : SocketAddr)
    (row : SocketEntry) : row ∈ bestFitting entries peer server ↔
      row ∈ entries ∧ ∃ s, row.fit peer server = some s ∧
        ∀ row' ∈ entries, ∀ t, row'.fit peer server = some t → t ≤ s :=
  Best.mem_bestOf _ _ _

/-- What rows say of their owner does not depend on their order. -/
theorem SocketMatch.ofBest_perm {rows rows' : List SocketEntry} (h : rows.Perm rows') :
    ofBest rows = ofBest rows' := by
  rcases ofBest_cases rows with ⟨hrows, hof⟩ | ⟨entry, hrows, hof⟩ | ⟨uid, hrows, hof⟩ |
    ⟨hrows, hof⟩
  · rw [hrows] at h
    rw [hrows, h.nil_eq]
  · rw [hrows] at h
    rw [hrows, List.perm_singleton.mp h.symm]
  · rw [hof, ofBest_of_severalOf]
    exact ⟨h.length_eq ▸ hrows.1, fun row hrow => hrows.2 row (h.mem_iff.mpr hrow)⟩
  · obtain ⟨row, hrow, row', hrow', hne⟩ := hrows
    rw [hof, ofBest_of_mixed ⟨row, h.mem_iff.mp hrow, row', h.mem_iff.mp hrow', hne⟩]

/-- A row that cannot be the sender, or that another one fits better than. -/
def FitsWorse (entries : List SocketEntry) (peer server : SocketAddr) (row : SocketEntry) : Prop :=
  ∀ s, row.fit peer server = some s →
    ∃ row' ∈ entries, ∃ t, row'.fit peer server = some t ∧ s < t

/-- Rows may come in any order, and with any others that fit worse. -/
theorem findSocket_congr {entries entries' worse : List SocketEntry} {peer server : SocketAddr}
    (hworse : ∀ row ∈ worse, FitsWorse entries peer server row)
    (hperm : entries'.Perm (entries ++ worse)) :
    findSocket entries' peer server = findSocket entries peer server := by
  have hbest := Best.bestOf_perm (fun entry : SocketEntry => entry.fit peer server) hperm
  rw [Best.bestOf_append_of_outdone hworse] at hbest
  rw [findSocket_eq, findSocket_eq]
  exact SocketMatch.ofBest_perm hbest

/-- A user is reported exactly if the rows that fit best are all of that user. -/
theorem uid_identify_iff (proc : ProcFs) (transport : Transport) (peer server : SocketAddr)
    (processes : Bool) (uid : UInt32) :
    (identify proc transport peer server processes).uid = some uid ↔
      bestFitting (proc.socketTables transport) peer server ≠ [] ∧
        ∀ row ∈ bestFitting (proc.socketTables transport) peer server, row.uid = uid := by
  rw [identify, findSocket_eq]
  rcases SocketMatch.ofBest_cases (bestFitting (proc.socketTables transport) peer server) with
    ⟨hrows, hof⟩ | ⟨entry, hrows, hof⟩ | ⟨uid', hrows, hof⟩ | ⟨hrows, hof⟩
  · rw [hof, hrows]
    simp [Caller.unknown]
  · rw [hof, hrows]
    cases processes <;> simp
  · rw [hof]
    obtain ⟨hlen, huid⟩ := hrows
    constructor
    · intro h
      refine ⟨?_, ?_⟩
      · intro hnil
        simp [hnil] at hlen
      · intro row hrow
        rw [huid row hrow]
        exact Option.some.inj h
    · intro h
      obtain ⟨row, hrow⟩ := List.exists_mem_of_ne_nil _ h.1
      exact congrArg some ((huid row hrow).symm.trans (h.2 row hrow))
  · rw [hof]
    obtain ⟨row, hrow, row', hrow', hne⟩ := hrows
    constructor
    · intro h
      cases h
    · intro h
      exact absurd ((h.2 row hrow).trans (h.2 row' hrow').symm) hne

/-- The lookup picks the best fit, whatever the order of the table. -/
theorem findSocket_best_fit (entries : List SocketEntry) (peer server : SocketAddr) :
    (∀ row, row ∈ bestFitting entries peer server ↔
      row ∈ entries ∧ ∃ s, row.fit peer server = some s ∧
        ∀ row' ∈ entries, ∀ t, row'.fit peer server = some t → t ≤ s) ∧
    (findSocket entries peer server = .none ↔ bestFitting entries peer server = []) ∧
    (∀ row, findSocket entries peer server = .one row ↔
      bestFitting entries peer server = [row]) ∧
    (∀ uid, findSocket entries peer server = .sameUser uid ↔
      SeveralOf uid (bestFitting entries peer server)) ∧
    (findSocket entries peer server = .ambiguous ↔ Mixed (bestFitting entries peer server)) ∧
    (∀ entries' worse : List SocketEntry,
      (∀ row ∈ worse, FitsWorse entries peer server row) → entries'.Perm (entries ++ worse) →
      findSocket entries' peer server = findSocket entries peer server) ∧
    ∀ (proc : ProcFs) (transport : Transport) (processes : Bool) (uid : UInt32),
      proc.socketTables transport = entries →
      ((identify proc transport peer server processes).uid = some uid ↔
        bestFitting entries peer server ≠ [] ∧
          ∀ row ∈ bestFitting entries peer server, row.uid = uid) := by
  refine ⟨mem_bestFitting entries peer server, ?_, ?_, ?_, ?_, fun _ _ => findSocket_congr, ?_⟩
  · rw [findSocket_eq]
    exact SocketMatch.ofBest_eq_none_iff _
  · intro row
    rw [findSocket_eq]
    exact SocketMatch.ofBest_eq_one_iff _ _
  · intro uid
    rw [findSocket_eq]
    exact SocketMatch.ofBest_eq_sameUser_iff _ _
  · rw [findSocket_eq]
    exact SocketMatch.ofBest_eq_ambiguous_iff _
  · intro proc transport processes uid hentries
    rw [← hentries]
    exact uid_identify_iff proc transport peer server processes uid

/-- A socket bound to no address, with no peer. -/
def listening : SocketEntry :=
  ⟨⟨IpAddr.unspecifiedV4, 5001⟩, ⟨IpAddr.unspecifiedV4, 0⟩, 0, 9⟩

theorem findSocket_best_fit_connected :
    findSocket [listening, timeWait, connected] ⟨loopback, 5001⟩ ⟨loopback, 53⟩ =
      findSocket [connected] ⟨loopback, 5001⟩ ⟨loopback, 53⟩ ∧
    ((identify (procFsWith [connected]) .tcp ⟨loopback, 5001⟩ ⟨loopback, 53⟩ true).uid =
        some 1000 ↔
      bestFitting [connected] ⟨loopback, 5001⟩ ⟨loopback, 53⟩ ≠ [] ∧
        ∀ row ∈ bestFitting [connected] ⟨loopback, 5001⟩ ⟨loopback, 53⟩, row.uid = 1000) := by
  obtain ⟨_, _, _, _, _, horder, hidentify⟩ :=
    findSocket_best_fit [connected] ⟨loopback, 5001⟩ ⟨loopback, 53⟩
  refine ⟨horder _ [listening, timeWait] ?_ (by decide), hidentify (procFsWith [connected]) .tcp
    true 1000 rfl⟩
  intro row hrow s hs
  refine ⟨connected, by simp, 3, by decide, ?_⟩
  rcases List.mem_cons.mp hrow with rfl | hrow
  · cases hs
    decide
  · rw [List.mem_singleton.mp hrow] at hs
    cases hs

end Deezns
