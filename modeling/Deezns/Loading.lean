import Deezns.PolicyLaws
import Deezns.Reads

/-!
# Loading that ends

A list is read to the end of its file, and what cannot be read is passed over.
A file that has no end, or that fails at every read as a directory does, is
read for ever, and the daemon does not start.
-/
namespace Deezns

open Utf8 (Str)
open Reads (Source Gives)

/-- `BufRead::lines` of an opened file: a line, one that is not text or cannot be
read, or the end. -/
abbrev Reader := Source (Except IoError Str)

/-- What opening a path gives. -/
abbrev Opened := Str → Except IoError Reader

namespace Blocklist

/-- `Blocklist::parse`, in as many turns of its loop as there is fuel. -/
def parseReads (fuel : Nat) (reader : Reader) (name : Str) : Option Blocklist :=
  Reads.fold parseStep reader fuel 0 ⟨∅, ∅, name⟩

/-- `Blocklist::load`. -/
def loadReads (fuel : Nat) (opened : Opened) (path name : Str) : Async Blocklist :=
  match opened path with
  | .error e => some (.error e)
  | .ok reader => (parseReads fuel reader name).map .ok

/-- A file that is read to its end is parsed as its lines. -/
theorem parseReads_eq_some_iff (fuel : Nat) (reader : Reader) (name : Str) (list : Blocklist) :
    parseReads fuel reader name = some list ↔
      ∃ lines, Gives reader 0 lines ∧ lines.length < fuel ∧ list = parse lines name :=
  Reads.fold_eq_some_iff parseStep reader fuel 0 _ list

theorem exists_loadReads_iff (opened : Opened) (path name : Str) :
    (∃ fuel result, loadReads fuel opened path name = some result) ↔
      ∀ reader, opened path = .ok reader → ∃ n, reader n = none := by
  unfold loadReads
  cases hopen : opened path with
  | error e =>
    constructor
    · intro _ reader h
      cases h
    · intro _
      exact ⟨0, _, rfl⟩
  | ok reader =>
    have hends := Reads.exists_fold_iff parseStep reader ⟨∅, ∅, name⟩
    constructor
    · rintro ⟨fuel, result, h⟩ reader' heq
      cases heq
      obtain ⟨list, hlist, _⟩ := Option.map_eq_some_iff.mp h
      exact hends.mp ⟨fuel, list, hlist⟩
    · intro h
      obtain ⟨fuel, list, hlist⟩ := hends.mpr (h reader rfl)
      exact ⟨fuel, .ok list, congrArg (Option.map Except.ok) hlist⟩

theorem loadReads_mono {fuel fuel' : Nat} {opened : Opened} {path name : Str}
    {result : Except IoError Blocklist} (h : loadReads fuel opened path name = some result)
    (hle : fuel ≤ fuel') : loadReads fuel' opened path name = some result := by
  unfold loadReads at h ⊢
  split at h
  · exact h
  · obtain ⟨list, hlist, rfl⟩ := Option.map_eq_some_iff.mp h
    exact congrArg (Option.map Except.ok) (Reads.fold_mono hlist hle)

end Blocklist

namespace PolicyEngine

/-- The loop of `PolicyEngine::from_config` over the configured lists. -/
def loadAllReads (fuel : Nat) (opened : Opened) :
    List BlocklistConfig → Assoc.Map Str Blocklist → Async (Assoc.Map Str Blocklist)
  | [], blocklists => some (.ok blocklists)
  | cfg :: rest, blocklists =>
    match Blocklist.loadReads fuel opened cfg.path cfg.name with
    | none => none
    | some (.error e) => some (.error e)
    | some (.ok list) => loadAllReads fuel opened rest (blocklists.insert cfg.name list)

/-- The files that come to be read before one cannot be opened. -/
def reached (opened : Opened) : List BlocklistConfig → List Reader
  | [] => []
  | cfg :: rest =>
    match opened cfg.path with
    | .error _ => []
    | .ok reader => reader :: reached opened rest

theorem loadAllReads_mono {fuel fuel' : Nat} {opened : Opened} {lists : List BlocklistConfig}
    {blocklists : Assoc.Map Str Blocklist} {result : Except IoError (Assoc.Map Str Blocklist)}
    (h : loadAllReads fuel opened lists blocklists = some result) (hle : fuel ≤ fuel') :
    loadAllReads fuel' opened lists blocklists = some result := by
  induction lists generalizing blocklists with
  | nil => exact h
  | cons cfg lists ih =>
    rw [loadAllReads] at h ⊢
    cases hload : Blocklist.loadReads fuel opened cfg.path cfg.name with
    | none =>
      rw [hload] at h
      cases h
    | some loaded =>
      rw [hload] at h
      rw [Blocklist.loadReads_mono hload hle]
      cases loaded with
      | error e => exact h
      | ok list => exact ih h

/-- All lists are loaded at some time exactly if every file that is read ends. -/
theorem exists_loadAllReads_iff (opened : Opened) (lists : List BlocklistConfig)
    (blocklists : Assoc.Map Str Blocklist) :
    (∃ fuel result, loadAllReads fuel opened lists blocklists = some result) ↔
      ∀ reader ∈ reached opened lists, ∃ n, reader n = none := by
  induction lists generalizing blocklists with
  | nil => simp [loadAllReads, reached]
  | cons cfg lists ih =>
    simp only [loadAllReads, reached, Blocklist.loadReads]
    cases hopen : opened cfg.path with
    | error e => simp
    | ok reader =>
      have hends := Reads.exists_fold_iff Blocklist.parseStep reader ⟨∅, ∅, cfg.name⟩
      rw [List.forall_mem_cons, ← hends]
      constructor
      · rintro ⟨fuel, result, h⟩
        cases hparse : Blocklist.parseReads fuel reader cfg.name with
        | none =>
          simp only [hparse] at h
          cases h
        | some list =>
          simp only [hparse] at h
          exact ⟨⟨fuel, list, hparse⟩, (ih _).mp ⟨fuel, result, h⟩⟩
      · rintro ⟨⟨fuel, list, hparse⟩, hrest⟩
        obtain ⟨fuel', result, hresult⟩ := (ih (blocklists.insert cfg.name list)).mpr hrest
        have hparse' : Blocklist.parseReads (max fuel fuel') reader cfg.name = some list :=
          Reads.fold_mono hparse (Nat.le_max_left _ _)
        refine ⟨max fuel fuel', result, ?_⟩
        simp only [hparse']
        exact loadAllReads_mono hresult (Nat.le_max_right _ _)

variable {cel : Cel}

/-- `PolicyEngine::from_config`. -/
def fromConfigReads (fuel : Nat) (opened : Opened) (cfg : PolicyConfig) :
    Option (Except (ConfigError cel) (PolicyEngine cel)) :=
  match loadAllReads fuel opened cfg.blocklists ∅ with
  | none => none
  | some (.error e) => some (.error (.io e))
  | some (.ok blocklists) =>
    match compileRules 0 cfg.rules with
    | .error e => some (.error e)
    | .ok rules => some (.ok ⟨rules, blocklists, cfg.defaultVerdict⟩)

theorem exists_fromConfigReads_iff (opened : Opened) (cfg : PolicyConfig) :
    (∃ fuel, ∃ result : Except (ConfigError cel) (PolicyEngine cel),
      fromConfigReads fuel opened cfg = some result) ↔
      ∀ reader ∈ reached opened cfg.blocklists, ∃ n, reader n = none := by
  rw [← exists_loadAllReads_iff opened cfg.blocklists ∅]
  unfold fromConfigReads
  constructor
  · rintro ⟨fuel, result, h⟩
    cases hload : loadAllReads fuel opened cfg.blocklists ∅ with
    | none =>
      rw [hload] at h
      cases h
    | some loaded => exact ⟨fuel, loaded, hload⟩
  · rintro ⟨fuel, loaded, hload⟩
    refine ⟨fuel, ?_⟩
    rw [hload]
    cases loaded with
    | error e => exact ⟨_, rfl⟩
    | ok blocklists => cases compileRules 0 cfg.rules <;> exact ⟨_, rfl⟩

/-- Files that end are read as the lists of their lines. -/
theorem exists_loadAllReads_ofLines (files : Files) (lists : List BlocklistConfig)
    (blocklists : Assoc.Map Str Blocklist) :
    ∃ fuel, loadAllReads fuel (fun path => (files path).map Source.ofList) lists blocklists =
      some (loadBlocklists files lists blocklists) := by
  induction lists generalizing blocklists with
  | nil => exact ⟨0, rfl⟩
  | cons cfg lists ih =>
    simp only [loadAllReads, loadBlocklists, Blocklist.loadReads, Blocklist.load]
    cases hopen : files cfg.path with
    | error e => exact ⟨0, rfl⟩
    | ok reader =>
      obtain ⟨fuel, hrest⟩ := ih (blocklists.insert cfg.name (Blocklist.parse reader cfg.name))
      have hparse := (Blocklist.parseReads_eq_some_iff (reader.length + 1) (Source.ofList reader)
        cfg.name (Blocklist.parse reader cfg.name)).mpr
          ⟨reader, Reads.gives_ofList reader, Nat.lt_succ_self _, rfl⟩
      have hparse' : Blocklist.parseReads (max (reader.length + 1) fuel) (Source.ofList reader)
          cfg.name = some (Blocklist.parse reader cfg.name) :=
        Reads.fold_mono hparse (Nat.le_max_left _ _)
      refine ⟨max (reader.length + 1) fuel, ?_⟩
      simp only [Except.map, hparse', Option.map_some]
      exact loadAllReads_mono hrest (Nat.le_max_right _ _)

theorem exists_fromConfigReads_ofLines (files : Files) (cfg : PolicyConfig) :
    ∃ fuel, fromConfigReads fuel (fun path => (files path).map Source.ofList) cfg =
      some (fromConfig files cfg : Except (ConfigError cel) (PolicyEngine cel)) := by
  obtain ⟨fuel, hload⟩ := exists_loadAllReads_ofLines files cfg.blocklists ∅
  refine ⟨fuel, ?_⟩
  simp only [fromConfigReads, hload, fromConfig]
  cases loadBlocklists files cfg.blocklists ∅ with
  | error e => rfl
  | ok blocklists => cases compileRules 0 cfg.rules <;> rfl

/-- Loading ends exactly where the files that are read do. -/
theorem loading_ends_iff :
    (∀ (reader : Reader) (name : Str),
      (∃ fuel list, Blocklist.parseReads fuel reader name = some list) ↔ ∃ n, reader n = none) ∧
    (∀ (opened : Opened) (path name : Str),
      (∃ fuel result, Blocklist.loadReads fuel opened path name = some result) ↔
        ∀ reader, opened path = .ok reader → ∃ n, reader n = none) ∧
    ∀ (opened : Opened) (cfg : PolicyConfig),
      (∃ fuel, ∃ result : Except (ConfigError cel) (PolicyEngine cel),
        fromConfigReads fuel opened cfg = some result) ↔
        ∀ reader ∈ reached opened cfg.blocklists, ∃ n, reader n = none :=
  ⟨fun reader name => Reads.exists_fold_iff Blocklist.parseStep reader ⟨∅, ∅, name⟩,
    Blocklist.exists_loadReads_iff, exists_fromConfigReads_iff⟩

/-- What reading a directory gives: EISDIR, again and again. -/
def directory : Reader := fun _ => some (.error (.os 21))

/-- A configuration whose only list is in `/lists`. -/
def listedInDirectory : PolicyConfig where
  defaultVerdict := .passthrough
  blocklists := [⟨"ads".toList, "/lists".toList⟩]
  rules := []
  nscdUser := none
  nscdFrontend := none
  dnsFrontend := none
  nssFrontend := none

/-- A directory is opened as a file is, and read for ever. -/
theorem directory_is_read_for_ever :
    (¬ ∃ fuel list, Blocklist.parseReads fuel directory "ads".toList = some list) ∧
    ¬ ∃ fuel, ∃ result : Except (ConfigError Cel.direct) (PolicyEngine Cel.direct),
      fromConfigReads fuel (fun _ => .ok directory) listedInDirectory = some result := by
  have hendless : ¬ ∃ n, directory n = none := by
    rintro ⟨n, hn⟩
    cases hn
  constructor
  · intro h
    exact hendless ((Reads.exists_fold_iff _ _ _).mp h)
  · intro h
    exact hendless ((exists_fromConfigReads_iff _ _).mp h directory (by simp [reached,
      listedInDirectory]))

end PolicyEngine

end Deezns
