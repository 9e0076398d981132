import Deezns.MappedAddresses
import Deezns.Probing

/-!
# Who sent it

A query was sent from a socket, whose row is one of those that fit. Another user than
its owner is named only for sockets that fit better, and better than the near end of
the connection itself none does.
-/
namespace Deezns

namespace SocketEntry

variable {entry : SocketEntry} {peer server : SocketAddr}

/-- The near end of the connection. -/
def IsEnd (entry : SocketEntry) (peer server : SocketAddr) : Prop :=
  entry.localAddr.port = peer.port ∧ sameHost entry.localAddr.ip peer.ip = true ∧
    entry.remoteAddr.port = server.port ∧ sameHost entry.remoteAddr.ip server.ip = true

instance (entry : SocketEntry) (peer server : SocketAddr) :
    Decidable (entry.IsEnd peer server) := inferInstanceAs (Decidable (_ ∧ _ ∧ _ ∧ _))

def FitsBetter (peer server : SocketAddr) (entry other : SocketEntry) : Prop :=
  ∃ s t, entry.fit peer server = some s ∧ other.fit peer server = some t ∧ t < s

theorem fit_le_three {s : Nat} (h : entry.fit peer server = some s) : s ≤ 3 := by
  obtain ⟨-, -, -, rfl⟩ := (fit_eq_some_iff _ _ _ _).mp h
  have hremote := Bool.toNat_le (entry.remoteExact server)
  have hlocal := Bool.toNat_le (entry.localExact peer)
  omega

theorem remoteExact_iff (hserver : server.ip.isUnspecified = false) :
    entry.remoteExact server = true ↔ entry.remoteAddr.port = server.port ∧
      sameHost entry.remoteAddr.ip server.ip = true := by
  simp [remoteExact, hserver]

/-- No row fits better than this. -/
theorem fit_eq_three_iff (hserver : server.ip.isUnspecified = false) :
    entry.fit peer server = some 3 ↔ entry.IsEnd peer server := by
  rw [fit_eq_some_iff, IsEnd, ← remoteExact_iff hserver, ← localExact]
  constructor
  · rintro ⟨hport, -, -, hscore⟩
    cases hlocal : entry.localExact peer <;> cases hremote : entry.remoteExact server <;>
      simp [hlocal, hremote] at hscore
    exact ⟨hport, rfl, rfl⟩
  · rintro ⟨hport, hlocal, hremote⟩
    exact ⟨hport, .inl hlocal, .inr hremote, by simp [hlocal, hremote]⟩

end SocketEntry

open SocketEntry (FitsBetter)

section
variable {rows : List SocketEntry} {peer server : SocketAddr} {sender : SocketEntry}
  (hmem : sender ∈ rows)
include hmem

/-- A row that fits is among the best, or all of these fit better. -/
theorem sender_mem_or_outdone {s : Nat} (hfit : sender.fit peer server = some s) :
    sender ∈ bestFitting rows peer server ∨
      ∀ row ∈ bestFitting rows peer server, FitsBetter peer server row sender := by
  by_cases hbest : sender ∈ bestFitting rows peer server
  · exact .inl hbest
  · right
    intro row hrow
    obtain ⟨-, t, ht, hle⟩ := (mem_bestFitting rows peer server row).mp hrow
    have hst := hle sender hmem s hfit
    refine ⟨t, s, ht, hfit, Nat.lt_of_le_of_ne hst ?_⟩
    rintro rfl
    exact hbest (Best.mem_bestOf_of_score_eq hrow hmem (hfit.trans ht.symm))

/-- Where the sender's row is one end of the connection, the best rows are its ends. -/
theorem mem_bestFitting_iff_isEnd (hserver : server.ip.isUnspecified = false)
    (hend : sender.IsEnd peer server) (row : SocketEntry) :
    row ∈ bestFitting rows peer server ↔ row ∈ rows ∧ row.IsEnd peer server := by
  have htop : Best.IsTop (fun entry : SocketEntry => entry.fit peer server) rows 3 :=
    ⟨⟨sender, hmem, (SocketEntry.fit_eq_three_iff hserver).mpr hend⟩,
      fun _ _ _ => SocketEntry.fit_le_three⟩
  rw [bestFitting, Best.bestOf_of_isTop htop, List.mem_filter, decide_eq_true_iff,
    SocketEntry.fit_eq_three_iff hserver]

end

namespace Sighting

variable {sighting : Sighting} {processes : Bool} {probed : Option Bool}

def rows (sighting : Sighting) : List SocketEntry :=
  sighting.tables.socketTables sighting.transport

theorem uid_identify_eq_some_iff (uid : UInt32) :
    (sighting.identify processes probed).1.uid = some uid ↔
      sighting.bestRows ≠ [] ∧ ∀ row ∈ sighting.bestRows, row.uid = uid := by
  rw [uid_identify]
  exact uid_identify_iff sighting.tables sighting.transport sighting.peer sighting.server false uid

theorem identify_of_mixed (h : Mixed sighting.bestRows) :
    (sighting.identify processes probed).1 = .unknown := by
  have hfound : sighting.found = .ambiguous := by
    rw [found, findSocket_eq]
    exact SocketMatch.ofBest_of_mixed h
  simp only [identify, hfound]

/-- A process is named for the only row that fits best, which it holds. -/
theorem exists_process_of_pid {pid : Int32}
    (h : (sighting.identify processes probed).1.pid = some pid) :
    ∃ row can process, sighting.bestRows = [row] ∧ process ∈ sighting.later.candidates can ∧
      process.holds row.inode = true ∧ process.pid = pid := by
  cases hprobes : sighting.probes processes with
  | false =>
    rw [(identify_of_no_process hprobes probed).1] at h
    cases h
  | true =>
    obtain ⟨rfl, row, hrow⟩ := (sighting.probes_eq_true_iff processes).mp hprobes
    rw [identify_of_probes hprobes, identify_of_one hrow] at h
    obtain ⟨process, hfind, rfl⟩ := Option.map_eq_some_iff.mp h
    have hholds : process.holds row.inode = true := by simpa using List.find?_some hfind
    exact ⟨row, _, process, hrow, List.mem_of_find?_eq_some hfind, hholds, rfl⟩

/-- Another user than the sender's is named only for sockets that fit better. At the
near end of the connection it is the owner who is named, unless users share it, and
then nobody; and a process that is named holds the sender's socket. -/
theorem sender_is_named (sighting : Sighting) (processes : Bool) (probed : Option Bool)
    (sender : SocketEntry) (hmem : sender ∈ sighting.rows) {s : Nat}
    (hfit : sender.fit sighting.peer sighting.server = some s) :
    (∀ uid, (sighting.identify processes probed).1.uid = some uid → uid ≠ sender.uid →
      ∃ row ∈ sighting.rows, row.uid = uid ∧
        FitsBetter sighting.peer sighting.server row sender) ∧
    (sighting.server.ip.isUnspecified = false → sender.IsEnd sighting.peer sighting.server →
      ((sighting.identify processes probed).1.uid = some sender.uid ↔
        ∀ row ∈ sighting.rows, row.IsEnd sighting.peer sighting.server → row.uid = sender.uid) ∧
      ((sighting.identify processes probed).1.uid ≠ some sender.uid →
        (sighting.identify processes probed).1 = .unknown) ∧
      ∀ pid, (sighting.identify processes probed).1.pid = some pid →
        ∃ can process, process ∈ sighting.later.candidates can ∧
          process.holds sender.inode = true ∧ process.pid = pid) := by
  constructor
  · intro uid huid hne
    obtain ⟨hnil, hall⟩ := (uid_identify_eq_some_iff uid).mp huid
    rcases sender_mem_or_outdone hmem hfit with hbest | hbetter
    · exact absurd (hall sender hbest).symm hne
    · obtain ⟨row, hrow⟩ := List.exists_mem_of_ne_nil _ hnil
      have hrows := ((mem_bestFitting _ _ _ row).mp hrow).1
      exact ⟨row, hrows, hall row hrow, hbetter row hrow⟩
  · intro hserver hend
    have hbest := mem_bestFitting_iff_isEnd hmem hserver hend
    have hsender : sender ∈ sighting.bestRows := (hbest sender).mpr ⟨hmem, hend⟩
    have hnamed : (sighting.identify processes probed).1.uid = some sender.uid ↔
        ∀ row ∈ sighting.bestRows, row.uid = sender.uid := by
      rw [uid_identify_eq_some_iff]
      exact and_iff_right (List.ne_nil_of_mem hsender)
    refine ⟨?_, ?_, ?_⟩
    · rw [hnamed]
      constructor
      · intro hall row hrow hrowEnd
        exact hall row ((hbest row).mpr ⟨hrow, hrowEnd⟩)
      · intro hall row hrow
        obtain ⟨hrows, hrowEnd⟩ := (hbest row).mp hrow
        exact hall row hrows hrowEnd
    · intro hne
      rw [Ne, hnamed] at hne
      push Not at hne
      obtain ⟨row, hrow, hother⟩ := hne
      exact identify_of_mixed ⟨row, hrow, sender, hsender, hother⟩
    · intro pid hpid
      obtain ⟨row, can, process, hrow, hcandidate, hholds, hprocess⟩ :=
        exists_process_of_pid hpid
      rw [hrow, List.mem_singleton] at hsender
      subst hsender
      exact ⟨can, process, hcandidate, hholds, hprocess⟩

/-- A client's connection, seen among a listener and a closed connection. -/
def ofClient : Sighting where
  tables := procFsWith [listening, timeWait, connected]
  later := procFsWith []
  transport := .tcp
  peer := ⟨loopback, 5001⟩
  server := ⟨loopback, 53⟩

theorem sender_is_named_client :
    (ofClient.identify true none).1.uid = some connected.uid := by
  have hmem : connected ∈ ofClient.rows := by decide
  have hfit : connected.fit ofClient.peer ofClient.server = some 3 := by decide
  obtain ⟨-, hend⟩ := sender_is_named ofClient true none connected hmem hfit
  obtain ⟨hiff, -, -⟩ := hend (by decide) (by decide)
  exact hiff.mpr (by decide)

end Sighting

end Deezns
