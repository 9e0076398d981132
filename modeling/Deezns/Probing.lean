import Deezns.BestFit

/-!
# Looking callers up one after another

A lookup reads the socket tables and then, for the one socket that fits best, the
processes. Whether those of others can be read is found out by the first lookup
that comes so far, and kept for all that follow.
-/
namespace Deezns

/-- A process has the socket among its descriptors. -/
def Process.holds (process : Process) (inode : UInt64) : Bool :=
  process.fd.any (fun fds => (fds.filterMap id).any (fun target => target == .socket inode))

/-- The processes to search: without the capabilities only one's own. -/
def ProcFs.candidates (proc : ProcFs) (can : Bool) : List Process :=
  if can then (proc.allProcesses.getD []).filterMap id else proc.myself.toList

/-- What `/proc` shows to one lookup, first while the tables are read, and then while
the processes are. -/
structure Sighting where
  tables : ProcFs
  later : ProcFs
  transport : Transport
  peer : SocketAddr
  server : SocketAddr

namespace Sighting

def found (sighting : Sighting) : SocketMatch :=
  findSocket (sighting.tables.socketTables sighting.transport) sighting.peer sighting.server

def bestRows (sighting : Sighting) : List SocketEntry :=
  bestFitting (sighting.tables.socketTables sighting.transport) sighting.peer sighting.server

/-- The process holding a socket, where the result of the probe is known or not, and
the result that is known then. -/
def processWithSocket (sighting : Sighting) (probed : Option Bool) (inode : UInt64) :
    Option Process × Option Bool :=
  let can := probed.getD sighting.later.canInspectOtherProcesses
  ((sighting.later.candidates can).find? (·.holds inode), some can)

def identify (sighting : Sighting) (processes : Bool) (probed : Option Bool) :
    Caller × Option Bool :=
  match sighting.found with
  | .one socket =>
    if processes then
      let (process, probed) := sighting.processWithSocket probed socket.inode
      (⟨some socket.uid, process.bind Process.egid, process.map Process.pid⟩, probed)
    else (⟨some socket.uid, none, none⟩, probed)
  | .sameUser uid => (⟨some uid, none, none⟩, probed)
  | .ambiguous => (.unknown, probed)
  | .none => (.unknown, probed)

/-- The lookup comes as far as the processes. -/
def probes (sighting : Sighting) (processes : Bool) : Bool :=
  match sighting.found with
  | .one _ => processes
  | _ => false

theorem identify_of_not_probes {sighting : Sighting} {processes : Bool}
    (h : sighting.probes processes = false) (probed : Option Bool) :
    sighting.identify processes probed = ((sighting.identify processes none).1, probed) := by
  unfold probes at h
  unfold identify
  cases hfound : sighting.found with
  | one socket =>
    simp only [hfound] at h
    simp [h]
  | sameUser uid => rfl
  | ambiguous => rfl
  | none => rfl

theorem identify_of_probes {sighting : Sighting} {processes : Bool}
    (h : sighting.probes processes = true) (probed : Option Bool) :
    sighting.identify processes probed =
      ((sighting.identify processes
        (some (probed.getD sighting.later.canInspectOtherProcesses))).1,
        some (probed.getD sighting.later.canInspectOtherProcesses)) := by
  unfold probes at h
  unfold identify
  cases hfound : sighting.found with
  | one socket =>
    simp only [hfound] at h
    simp [h, processWithSocket]
  | sameUser uid => simp [hfound] at h
  | ambiguous => simp [hfound] at h
  | none => simp [hfound] at h

/-- At one moment this is the lookup that probes by itself. -/
theorem identify_of_same {sighting : Sighting} (h : sighting.later = sighting.tables)
    (processes : Bool) :
    (sighting.identify processes none).1 =
      Deezns.identify sighting.tables sighting.transport sighting.peer sighting.server
        processes := by
  unfold identify Deezns.identify found
  cases findSocket (sighting.tables.socketTables sighting.transport) sighting.peer
    sighting.server with
  | one socket =>
    cases processes with
    | false => rfl
    | true =>
      have hprocess : (sighting.processWithSocket none socket.inode).1 =
          Deezns.processWithSocket sighting.tables socket.inode := by
        rw [processWithSocket, Deezns.processWithSocket, Option.getD_none, h]
        cases sighting.tables.canInspectOtherProcesses with
        | false =>
          simp only [ProcFs.candidates, Bool.false_eq_true, if_false]
          cases sighting.tables.myself with
          | none => rfl
          | some process =>
            rw [Option.toList_some, List.find?_singleton]
            rfl
        | true =>
          simp only [ProcFs.candidates, if_true]
          cases sighting.tables.allProcesses <;> rfl
      simp only [if_true, hprocess]
  | sameUser uid => rfl
  | ambiguous => rfl
  | none => rfl

/-- All lookups, one after another. -/
def identifyAll (processes : Bool) : Option Bool → List Sighting → List Caller × Option Bool
  | probed, [] => ([], probed)
  | probed, sighting :: rest =>
    let (caller, probed) := sighting.identify processes probed
    let (callers, probed) := identifyAll processes probed rest
    (caller :: callers, probed)

/-- The result of the probe, for a run of lookups before which it was known or not. -/
def probeOf (processes : Bool) (probed : Option Bool) (sightings : List Sighting) :
    Option Bool :=
  probed.or ((sightings.find? (·.probes processes)).map
    (·.later.canInspectOtherProcesses))

theorem identifyAll_eq (processes : Bool) (probed : Option Bool) (sightings : List Sighting) :
    identifyAll processes probed sightings =
      (sightings.map fun sighting =>
        (sighting.identify processes (probeOf processes probed sightings)).1,
        probeOf processes probed sightings) := by
  induction sightings generalizing probed with
  | nil => cases probed <;> rfl
  | cons sighting rest ih =>
    rw [identifyAll, List.map_cons]
    cases hprobes : sighting.probes processes with
    | false =>
      have hprobe : probeOf processes probed (sighting :: rest) =
          probeOf processes probed rest := by
        rw [probeOf, probeOf, List.find?_cons_of_neg (by simp [hprobes])]
      simp only [identify_of_not_probes hprobes probed, ih, hprobe]
      rw [identify_of_not_probes hprobes (probeOf processes probed rest)]
    | true =>
      have hprobe : probeOf processes probed (sighting :: rest) =
          some (probed.getD sighting.later.canInspectOtherProcesses) := by
        rw [probeOf, List.find?_cons_of_pos (by simp [hprobes])]
        cases probed <;> rfl
      have hrest : probeOf processes
          (some (probed.getD sighting.later.canInspectOtherProcesses)) rest =
            some (probed.getD sighting.later.canInspectOtherProcesses) := rfl
      simp only [identify_of_probes hprobes probed, ih, hprobe, hrest]

/-- Who a caller is, where the result of the probe is known if it matters: the user all
rows that fit best belong to, and the first process to be seen with the only one of
them among its descriptors. -/
structure Named (processes : Bool) (probed : Option Bool) (sighting : Sighting)
    (caller : Caller) : Prop where
  uid : ∀ uid, caller.uid = some uid ↔
    sighting.bestRows ≠ [] ∧ ∀ row ∈ sighting.bestRows, row.uid = uid
  process : ∀ pid gid, caller.pid = some pid ∧ caller.gid = gid ↔
    processes = true ∧ ∃ row can before process after, sighting.bestRows = [row] ∧
      probed = some can ∧ sighting.later.candidates can = before ++ process :: after ∧
      process.holds row.inode = true ∧ (∀ other ∈ before, other.holds row.inode = false) ∧
      process.pid = pid ∧ process.egid = gid
  gid : caller.pid = none → caller.gid = none

theorem uid_identify (sighting : Sighting) (processes : Bool) (probed : Option Bool) :
    (sighting.identify processes probed).1.uid =
      (Deezns.identify sighting.tables sighting.transport sighting.peer sighting.server
        false).uid := by
  unfold identify Deezns.identify found
  cases findSocket (sighting.tables.socketTables sighting.transport) sighting.peer
    sighting.server with
  | one socket => cases processes <;> rfl
  | sameUser uid => rfl
  | ambiguous => rfl
  | none => rfl

/-- Without a single row that fits best, or where it is not asked for, there is no
process. -/
theorem identify_of_no_process {sighting : Sighting} {processes : Bool}
    (h : sighting.probes processes = false) (probed : Option Bool) :
    (sighting.identify processes probed).1.pid = none ∧
      (sighting.identify processes probed).1.gid = none := by
  unfold probes at h
  unfold identify
  cases hfound : sighting.found with
  | one socket =>
    simp only [hfound] at h
    simp [h]
  | sameUser uid => exact ⟨rfl, rfl⟩
  | ambiguous => exact ⟨rfl, rfl⟩
  | none => exact ⟨rfl, rfl⟩

theorem found_eq_one_iff (sighting : Sighting) (row : SocketEntry) :
    sighting.found = .one row ↔ sighting.bestRows = [row] := by
  rw [found, findSocket_eq, bestRows, SocketMatch.ofBest_eq_one_iff]

theorem probes_eq_true_iff (sighting : Sighting) (processes : Bool) :
    sighting.probes processes = true ↔
      processes = true ∧ ∃ row, sighting.bestRows = [row] := by
  simp only [← found_eq_one_iff]
  unfold probes
  cases sighting.found <;> simp

theorem identify_of_one {sighting : Sighting} {row : SocketEntry}
    (h : sighting.bestRows = [row]) (can : Bool) :
    (sighting.identify true (some can)).1 =
      ⟨some row.uid,
        ((sighting.later.candidates can).find? (·.holds row.inode)).bind Process.egid,
        ((sighting.later.candidates can).find? (·.holds row.inode)).map Process.pid⟩ := by
  rw [identify, (sighting.found_eq_one_iff row).mpr h]
  rfl

/-- The first process with the socket, and nobody before it. -/
theorem find?_holds_iff (processes : List Process) (inode : UInt64) (process : Process) :
    processes.find? (·.holds inode) = some process ↔
      ∃ before after, processes = before ++ process :: after ∧ process.holds inode = true ∧
        ∀ other ∈ before, other.holds inode = false := by
  rw [List.find?_eq_some_iff_append]
  constructor
  · rintro ⟨hholds, before, after, hsplit, hbefore⟩
    exact ⟨before, after, hsplit, hholds, fun other hother => by simpa using hbefore other hother⟩
  · rintro ⟨before, after, hsplit, hholds, hbefore⟩
    exact ⟨hholds, before, after, hsplit, fun other hother => by simpa using hbefore other hother⟩

theorem named_identify (sighting : Sighting) (processes : Bool) {probed : Option Bool}
    (h : sighting.probes processes = true → probed.isSome = true) :
    sighting.Named processes probed (sighting.identify processes probed).1 := by
  refine ⟨fun uid => ?_, fun pid gid => ?_, fun hpid => ?_⟩
  · rw [uid_identify, uid_identify_iff]
    rfl
  · cases hprobes : sighting.probes processes with
    | false =>
      have hnone := (identify_of_no_process hprobes probed).1
      refine iff_of_false (fun hboth => ?_) ?_
      · rw [hnone] at hboth
        cases hboth.1
      · rintro ⟨hprocesses, row, _, _, _, _, hrow, _⟩
        rw [(sighting.probes_eq_true_iff processes).mpr ⟨hprocesses, row, hrow⟩] at hprobes
        cases hprobes
    | true =>
      obtain ⟨rfl, row, hrow⟩ := (sighting.probes_eq_true_iff processes).mp hprobes
      obtain ⟨can, rfl⟩ := Option.isSome_iff_exists.mp (h hprobes)
      rw [identify_of_one hrow can]
      cases hfind : (sighting.later.candidates can).find? (·.holds row.inode) with
      | none =>
        refine iff_of_false (fun hboth => by cases hboth.1) ?_
        rintro ⟨-, row', can', before, process, after, hrow', hcan, hsplit, hholds, hbefore, -⟩
        rw [hrow, List.singleton_inj] at hrow'
        subst hrow'
        cases hcan
        rw [(find?_holds_iff _ _ _).mpr ⟨before, after, hsplit, hholds, hbefore⟩] at hfind
        cases hfind
      | some process =>
        obtain ⟨before, after, hsplit, hholds, hbefore⟩ := (find?_holds_iff _ _ _).mp hfind
        constructor
        · rintro ⟨hpid, hgid⟩
          exact ⟨rfl, row, can, before, process, after, hrow, rfl, hsplit, hholds, hbefore,
            Option.some.inj hpid, hgid⟩
        · rintro ⟨-, row', can', before', process', after', hrow', hcan, hsplit', hholds', hbefore',
            hpid, hgid⟩
          rw [hrow, List.singleton_inj] at hrow'
          subst hrow'
          cases hcan
          rw [(find?_holds_iff _ _ _).mpr ⟨before', after', hsplit', hholds', hbefore'⟩] at hfind
          cases hfind
          exact ⟨congrArg some hpid, hgid⟩
  · cases hprobes : sighting.probes processes with
    | false => exact (identify_of_no_process hprobes probed).2
    | true =>
      obtain ⟨rfl, row, hrow⟩ := (sighting.probes_eq_true_iff processes).mp hprobes
      obtain ⟨can, rfl⟩ := Option.isSome_iff_exists.mp (h hprobes)
      rw [identify_of_one hrow can] at hpid ⊢
      rw [Option.map_eq_none_iff] at hpid
      rw [hpid]
      rfl

/-- However many lookups there are, each names the caller that `/proc` showed to it, and
all go by one probe, which is that of the first of them that needed it. -/
theorem identifyAll_named (processes : Bool) (sightings : List Sighting) :
    List.Forall₂ (Named processes (probeOf processes none sightings)) sightings
      (identifyAll processes none sightings).1 ∧
    (identifyAll processes none sightings).2 = probeOf processes none sightings := by
  rw [identifyAll_eq]
  refine ⟨?_, rfl⟩
  rw [List.forall₂_map_right_iff, List.forall₂_same]
  intro sighting hmem
  refine named_identify sighting processes fun hprobes => ?_
  have hfound : (sightings.find? (·.probes processes)).isSome = true :=
    List.find?_isSome.mpr ⟨sighting, hmem, hprobes⟩
  rw [probeOf, Option.none_or, Option.isSome_map]
  exact hfound

end Sighting

end Deezns
