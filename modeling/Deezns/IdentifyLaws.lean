import Deezns.Identify

/-!
# Laws of the socket lookup

The lookup says what the rows that fit best agree on. So a change of the tables
is noticed only through those rows: dropping the sockets nobody owns, or
writing IPv4 addresses in their IPv4-mapped form.
-/
namespace Deezns

def bestFitting (entries : List SocketEntry) (peer server : SocketAddr) : List SocketEntry :=
  Best.bestOf (fun entry => entry.fit peer server) entries

theorem findSocket_eq (entries : List SocketEntry) (peer server : SocketAddr) :
    findSocket entries peer server = SocketMatch.ofBest (bestFitting entries peer server) := by
  rw [findSocket, Best.scan_eq_bestOf, bestFitting]

/-- Two rows or more, all of one user. -/
def SeveralOf (uid : UInt32) (rows : List SocketEntry) : Prop :=
  2 ≤ rows.length ∧ ∀ row ∈ rows, row.uid = uid

/-- Rows of different users. -/
def Mixed (rows : List SocketEntry) : Prop := ∃ row ∈ rows, ∃ row' ∈ rows, row.uid ≠ row'.uid

namespace SocketMatch

@[simp] theorem ofBest_singleton (entry : SocketEntry) : ofBest [entry] = .one entry := rfl

theorem ofBest_of_severalOf {uid : UInt32} {rows : List SocketEntry} (h : SeveralOf uid rows) :
    ofBest rows = .sameUser uid := by
  obtain ⟨hlen, huid⟩ := h
  match rows, hlen, huid with
  | first :: second :: rest, _, huid =>
    have hall : (second :: rest).all (fun e => e.uid == first.uid) = true := by
      rw [List.all_eq_true]
      intro e he
      rw [huid e (by simp [he]), huid first (by simp), beq_self_eq_true]
    rw [ofBest, if_pos hall, huid first (by simp)]
    simp

theorem ofBest_of_mixed {rows : List SocketEntry} (h : Mixed rows) : ofBest rows = .ambiguous := by
  obtain ⟨row, hrow, row', hrow', hne⟩ := h
  match rows, hrow, hrow' with
  | [e], hrow, hrow' =>
    rw [List.mem_singleton.mp hrow, List.mem_singleton.mp hrow'] at hne
    exact absurd rfl hne
  | first :: second :: rest, hrow, hrow' =>
    have hall : ¬ (second :: rest).all (fun e => e.uid == first.uid) = true := by
      intro hall
      have huid : ∀ e ∈ first :: second :: rest, e.uid = first.uid := by
        intro e he
        rcases List.mem_cons.mp he with rfl | he
        · rfl
        · exact eq_of_beq (List.all_eq_true.mp hall e he)
      exact hne ((huid row hrow).trans (huid row' hrow').symm)
    rw [ofBest, if_neg hall]
    simp

/-- The four kinds of rows the lookup tells apart, and what it says of them. -/
theorem ofBest_cases (rows : List SocketEntry) :
    (rows = [] ∧ ofBest rows = .none) ∨
    (∃ entry, rows = [entry] ∧ ofBest rows = .one entry) ∨
    (∃ uid, SeveralOf uid rows ∧ ofBest rows = .sameUser uid) ∨
    (Mixed rows ∧ ofBest rows = .ambiguous) := by
  match rows with
  | [] => exact .inl ⟨rfl, rfl⟩
  | [entry] => exact .inr (.inl ⟨entry, rfl, rfl⟩)
  | first :: second :: rest =>
    by_cases h : ∀ row ∈ first :: second :: rest, row.uid = first.uid
    · have hseveral : SeveralOf first.uid (first :: second :: rest) := ⟨by simp, h⟩
      exact .inr (.inr (.inl ⟨first.uid, hseveral, ofBest_of_severalOf hseveral⟩))
    · push Not at h
      obtain ⟨row, hrow, hne⟩ := h
      have hmixed : Mixed (first :: second :: rest) := ⟨row, hrow, first, by simp, hne⟩
      exact .inr (.inr (.inr ⟨hmixed, ofBest_of_mixed hmixed⟩))

theorem ofBest_eq_none_iff (rows : List SocketEntry) : ofBest rows = .none ↔ rows = [] := by
  constructor
  · intro h
    rcases ofBest_cases rows with ⟨hrows, hof⟩ | ⟨_, _, hof⟩ | ⟨_, _, hof⟩ | ⟨_, hof⟩ <;>
      (rw [hof] at h; cases h)
    exact hrows
  · rintro rfl
    rfl

theorem ofBest_eq_one_iff (rows : List SocketEntry) (entry : SocketEntry) :
    ofBest rows = .one entry ↔ rows = [entry] := by
  constructor
  · intro h
    rcases ofBest_cases rows with ⟨_, hof⟩ | ⟨_, hrows, hof⟩ | ⟨_, _, hof⟩ | ⟨_, hof⟩ <;>
      (rw [hof] at h; cases h)
    exact hrows
  · rintro rfl
    rfl

theorem ofBest_eq_sameUser_iff (rows : List SocketEntry) (uid : UInt32) :
    ofBest rows = .sameUser uid ↔ SeveralOf uid rows := by
  constructor
  · intro h
    rcases ofBest_cases rows with ⟨_, hof⟩ | ⟨_, _, hof⟩ | ⟨_, hrows, hof⟩ | ⟨_, hof⟩ <;>
      (rw [hof] at h; cases h)
    exact hrows
  · exact ofBest_of_severalOf

theorem ofBest_eq_ambiguous_iff (rows : List SocketEntry) :
    ofBest rows = .ambiguous ↔ Mixed rows := by
  constructor
  · intro h
    rcases ofBest_cases rows with ⟨_, hof⟩ | ⟨_, _, hof⟩ | ⟨_, _, hof⟩ | ⟨hrows, hof⟩ <;>
      (rw [hof] at h; cases h)
    exact hrows
  · exact ofBest_of_mixed

end SocketMatch

/-- The sockets somebody owns. -/
def owned (entries : List SocketEntry) : List SocketEntry :=
  entries.filter (fun entry => entry.inode != 0)

def ProcFs.owned (proc : ProcFs) : ProcFs :=
  { proc with
    udp := proc.udp.map Deezns.owned
    udp6 := proc.udp6.map Deezns.owned
    tcp := proc.tcp.map Deezns.owned
    tcp6 := proc.tcp6.map Deezns.owned }

theorem ProcFs.socketTables_owned (proc : ProcFs) (transport : Transport) :
    proc.owned.socketTables transport = Deezns.owned (proc.socketTables transport) := by
  have htable : ∀ t : Option (List SocketEntry),
      ProcFs.table (t.map Deezns.owned) = Deezns.owned (ProcFs.table t) := by
    intro t
    cases t <;> rfl
  cases transport <;> simp [ProcFs.owned, ProcFs.socketTables, htable, Deezns.owned]

/-- No socket without an owner is among those that fit best, or what it says of
the owner is said as well by the best of the owned ones. -/
def OwnerlessHarmless (entries : List SocketEntry) (peer server : SocketAddr) : Prop :=
  (∀ row ∈ bestFitting entries peer server, row.inode ≠ 0) ∨
  (∃ uid, SeveralOf uid (bestFitting entries peer server) ∧
    SeveralOf uid (bestFitting (owned entries) peer server)) ∨
  (Mixed (bestFitting entries peer server) ∧ Mixed (bestFitting (owned entries) peer server))

theorem findSocket_owned_eq_iff (entries : List SocketEntry) (peer server : SocketAddr) :
    findSocket (owned entries) peer server = findSocket entries peer server ↔
      OwnerlessHarmless entries peer server := by
  rw [findSocket_eq, findSocket_eq]
  constructor
  · intro h
    rcases SocketMatch.ofBest_cases (bestFitting entries peer server) with
      ⟨hnil, _⟩ | ⟨entry, hone, _⟩ | ⟨uid, hseveral, hof⟩ | ⟨hmixed, hof⟩
    · left
      simp [hnil]
    · left
      rw [hone, SocketMatch.ofBest_singleton, SocketMatch.ofBest_eq_one_iff] at h
      have hmem : entry ∈ bestFitting (owned entries) peer server := by simp [h]
      have howned := ((Best.mem_bestOf _ _ _).mp hmem).1
      rw [hone]
      simpa [owned] using (List.mem_filter.mp howned).2
    · rw [hof, SocketMatch.ofBest_eq_sameUser_iff] at h
      exact .inr (.inl ⟨uid, hseveral, h⟩)
    · rw [hof, SocketMatch.ofBest_eq_ambiguous_iff] at h
      exact .inr (.inr ⟨hmixed, h⟩)
  · rintro (hall | ⟨uid, h, h'⟩ | ⟨h, h'⟩)
    · have hsame : bestFitting (owned entries) peer server = bestFitting entries peer server :=
        Best.bestOf_filter_of_forall _ _ _ (fun row hrow => bne_iff_ne.mpr (hall row hrow))
      rw [hsame]
    · rw [SocketMatch.ofBest_of_severalOf h, SocketMatch.ofBest_of_severalOf h']
    · rw [SocketMatch.ofBest_of_mixed h, SocketMatch.ofBest_of_mixed h']

/-- A lookup does not notice the sockets nobody owns exactly when they are
harmless, and then neither does the identification. -/
theorem findSocket_ignores_ownerless_iff (entries : List SocketEntry) (peer server : SocketAddr) :
    (findSocket entries peer server = findSocket (owned entries) peer server ↔
      OwnerlessHarmless entries peer server) ∧
    ∀ (proc : ProcFs) (transport : Transport) (processes : Bool),
      proc.socketTables transport = entries → OwnerlessHarmless entries peer server →
      identify proc transport peer server processes =
        identify proc.owned transport peer server processes := by
  constructor
  · rw [eq_comm]
    exact findSocket_owned_eq_iff entries peer server
  · rintro proc transport processes rfl hharmless
    have hfind := (findSocket_owned_eq_iff _ peer server).mpr hharmless
    simp only [identify, ProcFs.socketTables_owned, hfind]
    rfl

/-- `127.0.0.1`. -/
def loopback : IpAddr := .v4 ⟨[127, 0, 0, 1], rfl⟩

/-- What remains of a client's closed connection: no user, no inode. -/
def timeWait : SocketEntry := ⟨⟨loopback, 5000⟩, ⟨loopback, 53⟩, 0, 0⟩

/-- A client's connection to the server. -/
def connected : SocketEntry := ⟨⟨loopback, 5001⟩, ⟨loopback, 53⟩, 1000, 7⟩

/-- A socket without owner that also fits that client, by its wildcard. -/
def lingering : SocketEntry := ⟨⟨IpAddr.unspecifiedV4, 5001⟩, ⟨loopback, 53⟩, 0, 0⟩

def procFsWith (tcp : List SocketEntry) : ProcFs where
  udp := none
  udp6 := none
  tcp := some tcp
  tcp6 := none
  myself := none
  allProcesses := none
  init := none

theorem findSocket_ignores_ownerless_lingering :
    findSocket [lingering] ⟨loopback, 5001⟩ ⟨loopback, 53⟩ = .one lingering ∧
    findSocket [timeWait, lingering, connected] ⟨loopback, 5001⟩ ⟨loopback, 53⟩ =
      findSocket (owned [timeWait, lingering, connected]) ⟨loopback, 5001⟩ ⟨loopback, 53⟩ ∧
    identify (procFsWith [timeWait, lingering, connected]) .tcp ⟨loopback, 5001⟩
        ⟨loopback, 53⟩ true =
      identify (procFsWith [timeWait, lingering, connected]).owned .tcp ⟨loopback, 5001⟩
        ⟨loopback, 53⟩ true := by
  have hharmless : OwnerlessHarmless [timeWait, lingering, connected] ⟨loopback, 5001⟩
      ⟨loopback, 53⟩ := by
    left
    decide
  have hlaw := findSocket_ignores_ownerless_iff [timeWait, lingering, connected]
    ⟨loopback, 5001⟩ ⟨loopback, 53⟩
  exact ⟨by decide, hlaw.1.mpr hharmless, hlaw.2 _ .tcp true rfl hharmless⟩

/-- The peer of a closed connection is taken for root. -/
theorem findSocket_timeWait_is_root :
    findSocket [timeWait] ⟨loopback, 5000⟩ ⟨loopback, 53⟩ = .one timeWait ∧
    findSocket (owned [timeWait]) ⟨loopback, 5000⟩ ⟨loopback, 53⟩ = .none ∧
    (identify (procFsWith [timeWait]) .tcp ⟨loopback, 5000⟩ ⟨loopback, 53⟩ true).uid = some 0 ∧
    identify (procFsWith [timeWait]).owned .tcp ⟨loopback, 5000⟩ ⟨loopback, 53⟩ true =
      .unknown := by
  decide

end Deezns
