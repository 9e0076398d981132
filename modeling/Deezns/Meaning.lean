import Deezns.Loading
import Deezns.PolicyLists

/-!
# What a configuration means

Said without engines, maps and compiled programs: a configuration has a first fault, in
the files of its lists or in the expressions of its rules, or a list that is read for
ever, or else it gives each query the verdict of the first rule that is true of it. The
loaded engine does just that.
-/
namespace Deezns

open Utf8 (Str)
open Text (trim)
open Reads (Source Gives)

/-- Something holds of the first item that is not good, and of its place. -/
def AtFirst {α : Type} (good : α → Prop) (q : Nat → α → Prop) (items : List α) : Prop :=
  ∃ before item after, items = before ++ item :: after ∧ (∀ x ∈ before, good x) ∧
    q before.length item

section
variable {α : Type} {good : α → Prop} {q : Nat → α → Prop}

@[simp] theorem not_atFirst_nil : ¬ AtFirst good q [] := by
  rintro ⟨before, item, after, h, -⟩
  cases before <;> cases h

theorem atFirst_cons_iff (x : α) (items : List α) : AtFirst good q (x :: items) ↔
    q 0 x ∨ good x ∧ AtFirst good (fun i => q (i + 1)) items := by
  constructor
  · rintro ⟨before, item, after, h, hgood, hq⟩
    cases before with
    | nil =>
      cases h
      exact .inl hq
    | cons y before =>
      cases h
      rw [List.forall_mem_cons] at hgood
      exact .inr ⟨hgood.1, before, item, after, rfl, hgood.2, hq⟩
  · rintro (hq | ⟨hx, before, item, after, rfl, hgood, hq⟩)
    · exact ⟨[], x, items, rfl, by simp, hq⟩
    · exact ⟨x :: before, item, after, rfl, List.forall_mem_cons.mpr ⟨hx, hgood⟩, hq⟩

end

namespace PolicyEngine

variable {cel : Cel} (opened : Opened) (cfg : PolicyConfig)

/-- The list's file is opened and read to its end, and these are its lines. -/
def HasLines (entry : BlocklistConfig) (lines : Lines) : Prop :=
  ∃ reader, opened entry.path = .ok reader ∧ Gives reader 0 lines

/-- What is wrong with a configuration: the first list that can not be opened, or else
the first rule that does not compile. Lists before the first are read to their end. -/
inductive Fault : ConfigError cel → Prop where
  | list {e : IoError}
      (h : AtFirst (fun entry => ∃ lines, HasLines opened entry lines)
        (fun _ entry => opened entry.path = .error e) cfg.blocklists) : Fault (.io e)
  | rule {i : Nat} {note : Str} {e : cel.CompileError}
      (hlists : ∀ entry ∈ cfg.blocklists, ∃ lines, HasLines opened entry lines)
      (h : AtFirst (fun rule => ∃ program, cel.compile rule.expr = .ok program)
        (fun place rule => place = i ∧ rule.note = note ∧ cel.compile rule.expr = .error e)
        cfg.rules) : Fault (.compile i note e)

/-- A list is opened that has no end. -/
def Endless : Prop :=
  AtFirst (fun entry => ∃ lines, HasLines opened entry lines)
    (fun _ entry => ∃ reader, opened entry.path = .ok reader ∧ ∀ lines, ¬ Gives reader 0 lines)
    cfg.blocklists

/-- The name is on the last list called so: a line of its file blocks it. -/
def OnList (list hostname : Str) : Prop :=
  ∃ before entry after lines line, cfg.blocklists = before ++ entry :: after ∧
    entry.name = list ∧ (∀ later ∈ after, later.name ≠ list) ∧
    HasLines opened entry lines ∧ .ok line ∈ lines ∧ Blocklist.Blocks (trim line) hostname

open Classical in
/-- What a rule can read of a query. -/
noncomputable def view (hostname : Str) (caller : Caller) : Context where
  hostname := canonicalHostname hostname
  uid := caller.uidValue
  gid := caller.gidValue
  pid := caller.pidValue
  blockedBy := fun list => decide (OnList opened cfg list (canonicalHostname hostname))

@[simp] theorem view_blockedBy_iff (hostname : Str) (caller : Caller) (list : Str) :
    (view opened cfg hostname caller).blockedBy list = true ↔
      OnList opened cfg list (canonicalHostname hostname) := by
  simp [view]

/-- The rule is true of the query. -/
def IsTrueOf (cel : Cel) (hostname : Str) (caller : Caller) (rule : RuleConfig) : Prop :=
  ∃ program, cel.compile rule.expr = .ok program ∧
    cel.execute program (view opened cfg hostname caller) = .ok (.bool true)

def given (rule : RuleConfig) : PolicyVerdict :=
  match rule.verdict with
  | .allow => .allowed
  | .deny => .denied ("matched rule: ".toList ++ rule.note)
  | .passthrough => .passThrough

def givenByDefault (verdict : DefaultVerdict) (hostname : Str) : PolicyVerdict :=
  match verdict with
  | .passthrough => .passThrough
  | .deny => .denied (canonicalHostname hostname ++ " denied by default policy".toList)

/-- The verdict of a configuration. -/
inductive Means (cel : Cel) (hostname : Str) (caller : Caller) : PolicyVerdict → Prop where
  | rule {verdict : PolicyVerdict}
      (h : AtFirst (fun rule => ¬ IsTrueOf opened cfg cel hostname caller rule)
        (fun _ rule => IsTrueOf opened cfg cel hostname caller rule ∧ given rule = verdict)
        cfg.rules) : Means cel hostname caller verdict
  | byDefault (hnone : ∀ rule ∈ cfg.rules, ¬ IsTrueOf opened cfg cel hostname caller rule) :
      Means cel hostname caller (givenByDefault cfg.defaultVerdict hostname)

variable {opened cfg}

theorem exists_hasLines_iff {entry : BlocklistConfig} {reader : Reader}
    (hopen : opened entry.path = .ok reader) :
    (∃ lines, HasLines opened entry lines) ↔ ∃ lines, Gives reader 0 lines := by
  simp [HasLines, hopen]

/-- What loading gives has met a list that can not be opened, or has read the lines of the
first and gone on. -/
theorem loadAllReads_cons_eq_some {fuel : Nat} {entry : BlocklistConfig}
    {entries : List BlocklistConfig} {m : Assoc.Map Str Blocklist}
    {result : Except IoError (Assoc.Map Str Blocklist)}
    (h : loadAllReads fuel opened (entry :: entries) m = some result) :
    (∃ e, opened entry.path = .error e ∧ result = .error e) ∨
    ∃ lines, HasLines opened entry lines ∧ loadAllReads fuel opened entries
      (m.insert entry.name (Blocklist.parse lines entry.name)) = some result := by
  rw [loadAllReads, Blocklist.loadReads] at h
  cases hopen : opened entry.path with
  | error e =>
    rw [hopen] at h
    cases h
    exact .inl ⟨e, rfl, rfl⟩
  | ok reader =>
    right
    cases hparse : Blocklist.parseReads fuel reader entry.name with
    | none => simp [hopen, hparse] at h
    | some list =>
      obtain ⟨lines, hgives, -, rfl⟩ := (Blocklist.parseReads_eq_some_iff _ _ _ _).mp hparse
      simp only [hopen, hparse, Option.map_some] at h
      exact ⟨lines, ⟨reader, hopen, hgives⟩, h⟩

theorem exists_loadAllReads_cons {fuel : Nat} {entry : BlocklistConfig}
    {entries : List BlocklistConfig} {m : Assoc.Map Str Blocklist} {lines : Lines}
    {result : Except IoError (Assoc.Map Str Blocklist)} (hlines : HasLines opened entry lines)
    (h : loadAllReads fuel opened entries
      (m.insert entry.name (Blocklist.parse lines entry.name)) = some result) :
    ∃ fuel', loadAllReads fuel' opened (entry :: entries) m = some result := by
  obtain ⟨reader, hopen, hgives⟩ := hlines
  have hparse := (Blocklist.parseReads_eq_some_iff (max (lines.length + 1) fuel) reader
    entry.name _).mpr ⟨lines, hgives, by omega, rfl⟩
  refine ⟨max (lines.length + 1) fuel, ?_⟩
  simp only [loadAllReads, Blocklist.loadReads, hopen, hparse, Option.map_some]
  exact loadAllReads_mono h (Nat.le_max_right _ _)

/-- The first list that can not be opened is the fault, if those before have an end. -/
theorem exists_loadAllReads_error_iff (entries : List BlocklistConfig)
    (m : Assoc.Map Str Blocklist) (e : IoError) :
    (∃ fuel, loadAllReads fuel opened entries m = some (.error e)) ↔
      AtFirst (fun entry => ∃ lines, HasLines opened entry lines)
        (fun _ entry => opened entry.path = .error e) entries := by
  induction entries generalizing m with
  | nil => simp [loadAllReads]
  | cons entry entries ih =>
    rw [atFirst_cons_iff]
    constructor
    · rintro ⟨fuel, h⟩
      obtain ⟨e', hopen, heq⟩ | ⟨lines, hlines, hrest⟩ := loadAllReads_cons_eq_some h
      · cases heq
        exact .inl hopen
      · exact .inr ⟨⟨lines, hlines⟩, (ih _).mp ⟨fuel, hrest⟩⟩
    · rintro (hopen | ⟨⟨lines, hlines⟩, hrest⟩)
      · exact ⟨0, by rw [loadAllReads, Blocklist.loadReads, hopen]⟩
      · obtain ⟨fuel, hload⟩ := (ih _).mpr hrest
        exact exists_loadAllReads_cons hlines hload

theorem exists_loadAllReads_ok_iff (entries : List BlocklistConfig)
    (m : Assoc.Map Str Blocklist) :
    (∃ fuel m', loadAllReads fuel opened entries m = some (.ok m')) ↔
      ∀ entry ∈ entries, ∃ lines, HasLines opened entry lines := by
  induction entries generalizing m with
  | nil => simp [loadAllReads]
  | cons entry entries ih =>
    rw [List.forall_mem_cons]
    constructor
    · rintro ⟨fuel, m', h⟩
      obtain ⟨e, -, heq⟩ | ⟨lines, hlines, hrest⟩ := loadAllReads_cons_eq_some h
      · cases heq
      · exact ⟨⟨lines, hlines⟩, (ih _).mp ⟨fuel, m', hrest⟩⟩
    · rintro ⟨⟨lines, hlines⟩, hrest⟩
      obtain ⟨fuel, m', hload⟩ := (ih _).mpr hrest
      obtain ⟨fuel', hload'⟩ := exists_loadAllReads_cons hlines hload
      exact ⟨fuel', m', hload'⟩

/-- Some file that comes to be read has no end: the first of them is at fault. -/
theorem endless_iff (entries : List BlocklistConfig) :
    AtFirst (fun entry => ∃ lines, HasLines opened entry lines)
      (fun _ entry => ∃ reader, opened entry.path = .ok reader ∧ ∀ lines, ¬ Gives reader 0 lines)
      entries ↔ ¬ ∀ reader ∈ reached opened entries, ∃ n, reader n = none := by
  induction entries with
  | nil => simp [reached]
  | cons entry entries ih =>
    rw [atFirst_cons_iff, ih, reached]
    cases hopen : opened entry.path with
    | error e => simp [HasLines, hopen]
    | ok reader =>
      simp only [exists_hasLines_iff hopen, ← not_exists, Reads.exists_gives_iff,
        List.forall_mem_cons, Except.ok.injEq, exists_eq_left']
      tauto

theorem compileRules_eq_error_iff (i : Nat) (rules : List RuleConfig) (error : ConfigError cel) :
    compileRules i rules = .error error ↔
      AtFirst (fun rule => ∃ program, cel.compile rule.expr = .ok program)
        (fun place rule => ∃ e, error = .compile (i + place) rule.note e ∧
          cel.compile rule.expr = .error e) rules := by
  induction rules generalizing i with
  | nil => simp [compileRules]
  | cons rule rules ih =>
    rw [atFirst_cons_iff]
    simp only [compileRules]
    cases hcompile : cel.compile rule.expr with
    | error e => simp [eq_comm]
    | ok program =>
      have hrest := ih (i + 1)
      simp only [Nat.add_assoc, Nat.add_comm 1] at hrest
      cases hrules : (compileRules (i + 1) rules : Except (ConfigError cel) _) with
      | error error' => simp [← hrest, hrules]
      | ok compiled => simp [← hrest, hrules]

/-- What `fromConfigReads` gives, if it gives anything. -/
theorem exists_fromConfigReads_eq_iff (result : Except (ConfigError cel) (PolicyEngine cel)) :
    (∃ fuel, fromConfigReads fuel opened cfg = some result) ↔
      (∃ fuel e, loadAllReads fuel opened cfg.blocklists ∅ = some (.error e) ∧
        result = .error (.io e)) ∨
      ∃ fuel m, loadAllReads fuel opened cfg.blocklists ∅ = some (.ok m) ∧
        result = (compileRules 0 cfg.rules).map (⟨·, m, cfg.defaultVerdict⟩) := by
  constructor
  · rintro ⟨fuel, h⟩
    unfold fromConfigReads at h
    cases hload : loadAllReads fuel opened cfg.blocklists ∅ with
    | none => simp [hload] at h
    | some loaded =>
      cases loaded with
      | error e =>
        rw [hload] at h
        cases h
        exact .inl ⟨fuel, e, hload, rfl⟩
      | ok m =>
        refine .inr ⟨fuel, m, hload, ?_⟩
        cases hrules : (compileRules 0 cfg.rules : Except (ConfigError cel) _) <;>
        · simp only [hload, hrules, Option.some.injEq] at h
          rw [← h]
          rfl
  · rintro (⟨fuel, e, hload, rfl⟩ | ⟨fuel, m, hload, rfl⟩)
    · exact ⟨fuel, by simp [fromConfigReads, hload]⟩
    · refine ⟨fuel, ?_⟩
      cases hrules : (compileRules 0 cfg.rules : Except (ConfigError cel) _) <;>
        simp [fromConfigReads, hload, hrules, Except.map]

/-- A configuration is refused for its first fault. -/
theorem fromConfigReads_eq_error_iff (error : ConfigError cel) :
    (∃ fuel, fromConfigReads fuel opened cfg = some (.error error)) ↔
      Fault opened cfg error := by
  rw [exists_fromConfigReads_eq_iff]
  constructor
  · rintro (⟨fuel, e, hload, heq⟩ | ⟨fuel, m, hload, heq⟩)
    · cases heq
      exact .list ((exists_loadAllReads_error_iff _ ∅ e).mp ⟨fuel, hload⟩)
    · have hlists := (exists_loadAllReads_ok_iff _ ∅).mp ⟨fuel, m, hload⟩
      cases hrules : (compileRules 0 cfg.rules : Except (ConfigError cel) _) with
      | ok rules => simp [hrules, Except.map] at heq
      | error error' =>
        obtain rfl : error = error' := by simpa [hrules, Except.map] using heq
        obtain ⟨before, rule, after, hsplit, hgood, e, rfl, he⟩ :=
          (compileRules_eq_error_iff _ _ _).mp hrules
        exact .rule hlists ⟨before, rule, after, hsplit, hgood, by simp, rfl, he⟩
  · intro h
    cases h with
    | list h =>
      obtain ⟨fuel, hload⟩ := (exists_loadAllReads_error_iff _ ∅ _).mpr h
      exact .inl ⟨fuel, _, hload, rfl⟩
    | rule hlists h =>
      obtain ⟨fuel, m, hload⟩ := (exists_loadAllReads_ok_iff _ ∅).mpr hlists
      obtain ⟨before, rule, after, hsplit, hgood, rfl, rfl, he⟩ := h
      have hrules : compileRules 0 cfg.rules =
          .error (.compile (0 + before.length) rule.note _ : ConfigError cel) :=
        (compileRules_eq_error_iff 0 cfg.rules _).mpr
          ⟨before, rule, after, hsplit, hgood, _, rfl, he⟩
      exact .inr ⟨fuel, m, hload, by simp [hrules, Except.map]⟩

/-- A configuration is never done with exactly if one of its lists is endless. -/
theorem fromConfigReads_eq_none_iff :
    (∀ fuel, (fromConfigReads fuel opened cfg :
      Option (Except (ConfigError cel) (PolicyEngine cel))) = none) ↔ Endless opened cfg := by
  rw [Endless, endless_iff, ← @exists_fromConfigReads_iff cel opened cfg]
  simp [Option.eq_none_iff_forall_ne_some]

open Classical in
/-- The files, as the lines in them. -/
noncomputable def readOut (opened : Opened) : Files := fun path =>
  (opened path).map fun reader =>
    if h : ∃ lines, Gives reader 0 lines then h.choose else []

theorem readOut_of_hasLines {entry : BlocklistConfig} {lines : Lines}
    (h : HasLines opened entry lines) : readOut opened entry.path = .ok lines := by
  obtain ⟨reader, hopen, hgives⟩ := h
  have hsome : ∃ lines, Gives reader 0 lines := ⟨lines, hgives⟩
  have hsame : hsome.choose = lines := hsome.choose_spec.unique hgives
  simp [readOut, hopen, Except.map, hsome, hsame]

theorem loadBlocklists_readOut {fuel : Nat} {entries : List BlocklistConfig}
    {m m' : Assoc.Map Str Blocklist} (h : loadAllReads fuel opened entries m = some (.ok m')) :
    loadBlocklists (readOut opened) entries m = .ok m' := by
  induction entries generalizing m with
  | nil =>
    cases h
    rfl
  | cons entry entries ih =>
    obtain ⟨e, -, heq⟩ | ⟨lines, hlines, hrest⟩ := loadAllReads_cons_eq_some h
    · cases heq
    · simp only [loadBlocklists, Blocklist.load, readOut_of_hasLines hlines, Except.map]
      exact ih hrest

/-- Of an engine the lists have been read out, and the rules compiled. -/
theorem fromConfigReads_eq_ok {fuel : Nat} {engine : PolicyEngine cel}
    (h : fromConfigReads fuel opened cfg = some (.ok engine)) :
    (∀ entry ∈ cfg.blocklists, ∃ lines, HasLines opened entry lines) ∧
    fromConfig (readOut opened) cfg = .ok engine ∧
    compileRules 0 cfg.rules = .ok engine.rules ∧ engine.defaultVerdict = cfg.defaultVerdict := by
  obtain ⟨fuel', e, -, heq⟩ | ⟨fuel', m, hload, heq⟩ :=
    (exists_fromConfigReads_eq_iff _).mp ⟨fuel, h⟩
  · cases heq
  · have hfiles := loadBlocklists_readOut hload
    cases hrules : (compileRules 0 cfg.rules : Except (ConfigError cel) _) with
    | error error => simp [hrules, Except.map] at heq
    | ok rules =>
      rw [hrules] at heq
      cases heq
      refine ⟨(exists_loadAllReads_ok_iff _ ∅).mp ⟨fuel', m, hload⟩, ?_, rfl, rfl⟩
      simp only [fromConfig, hfiles, hrules]

theorem listContains_readOut_iff {entry : BlocklistConfig}
    (h : ∃ lines, HasLines opened entry lines) (hostname : Str) :
    ListContains (readOut opened) entry hostname ↔ ∃ lines line, HasLines opened entry lines ∧
      .ok line ∈ lines ∧ Blocklist.Blocks (trim line) hostname := by
  obtain ⟨lines, hlines⟩ := h
  have hload : Blocklist.load (readOut opened) entry.path entry.name =
      .ok (Blocklist.parse lines entry.name) := by
    simp [Blocklist.load, readOut_of_hasLines hlines, Except.map]
  simp only [ListContains, hload, Except.ok.injEq, exists_eq_left', Blocklist.contains_parse_iff]
  constructor
  · rintro ⟨line, hmem, hblocks⟩
    exact ⟨lines, line, hlines, hmem, hblocks⟩
  · rintro ⟨lines', line, hlines', hmem, hblocks⟩
    have hsame := (readOut_of_hasLines hlines).symm.trans (readOut_of_hasLines hlines')
    cases hsame
    exact ⟨line, hmem, hblocks⟩

theorem lastNamed_eq_some_iff (list : Str) (entries : List BlocklistConfig)
    (entry : BlocklistConfig) : lastNamed list entries = some entry ↔
      ∃ before after, entries = before ++ entry :: after ∧ entry.name = list ∧
        ∀ later ∈ after, later.name ≠ list := by
  rw [lastNamed, List.find?_eq_some_iff_append]
  simp only [decide_eq_true_eq, Bool.not_eq_true', decide_eq_false_iff_not]
  constructor
  · rintro ⟨hname, after, before, hsplit, hlater⟩
    refine ⟨before.reverse, after.reverse, ?_, hname, by simpa using hlater⟩
    rw [← List.reverse_reverse entries, hsplit]
    simp
  · rintro ⟨before, after, rfl, hname, hlater⟩
    exact ⟨hname, after.reverse, before.reverse, by simp, by simpa using hlater⟩

theorem onList_iff (hlists : ∀ entry ∈ cfg.blocklists, ∃ lines, HasLines opened entry lines)
    (list hostname : Str) : OnList opened cfg list hostname ↔
      ∃ last, lastNamed list cfg.blocklists = some last ∧
        ListContains (readOut opened) last hostname := by
  constructor
  · rintro ⟨before, entry, after, lines, line, hsplit, hname, hlater, hlines, hline⟩
    exact ⟨entry, (lastNamed_eq_some_iff _ _ _).mpr ⟨before, after, hsplit, hname, hlater⟩,
      (listContains_readOut_iff ⟨lines, hlines⟩ _).mpr ⟨lines, line, hlines, hline⟩⟩
  · rintro ⟨entry, hlast, hcontains⟩
    obtain ⟨before, after, hsplit, hname, hlater⟩ := (lastNamed_eq_some_iff _ _ _).mp hlast
    have hentry := hlists entry (by simp [hsplit])
    obtain ⟨lines, line, hlines, hline⟩ := (listContains_readOut_iff hentry _).mp hcontains
    exact ⟨before, entry, after, lines, line, hsplit, hname, hlater, hlines, hline⟩

theorem context_fromConfigReads {fuel : Nat} {engine : PolicyEngine cel}
    (h : fromConfigReads fuel opened cfg = some (.ok engine)) (hostname : Str)
    (caller : Caller) :
    engine.context (canonicalHostname hostname) caller = view opened cfg hostname caller := by
  obtain ⟨hlists, hfiles, -, -⟩ := fromConfigReads_eq_ok h
  have hblocked : (engine.context (canonicalHostname hostname) caller).blockedBy =
      (view opened cfg hostname caller).blockedBy := by
    funext list
    rw [Bool.eq_iff_iff, blockedBy_fromConfig (readOut opened) cfg engine hfiles,
      ← onList_iff hlists, view_blockedBy_iff]
  exact congrArg (Context.mk (canonicalHostname hostname) caller.uidValue caller.gidValue
    caller.pidValue) hblocked

section
variable {i : Nat} {rules : List RuleConfig} {compiled : List (CompiledRule cel)}

/-- Of a rule the program is kept, with the note and the verdict. -/
theorem compileRules_cons_eq_ok {rule : RuleConfig}
    (h : compileRules i (rule :: rules) = .ok compiled) :
    ∃ program rest, cel.compile rule.expr = .ok program ∧ compileRules (i + 1) rules = .ok rest ∧
      compiled = ⟨rule.note, program, rule.verdict⟩ :: rest := by
  simp only [compileRules] at h
  cases hcompile : cel.compile rule.expr with
  | error e => simp [hcompile] at h
  | ok program =>
    cases hrules : (compileRules (i + 1) rules : Except (ConfigError cel) _) with
    | error error => simp [hcompile, hrules] at h
    | ok rest =>
      simp only [hcompile, hrules, Except.ok.injEq] at h
      exact ⟨program, rest, rfl, rfl, h.symm⟩

theorem firstMatch_compileRules (ctx : Context) (h : compileRules i rules = .ok compiled)
    (isTrue : RuleConfig → Prop)
    (htrue : ∀ rule, isTrue rule ↔ ∃ program, cel.compile rule.expr = .ok program ∧
      cel.execute program ctx = .ok (.bool true)) :
    (firstMatch ctx compiled = none ↔ ∀ rule ∈ rules, ¬ isTrue rule) ∧
    ∀ verdict, firstMatch ctx compiled = some verdict ↔
      AtFirst (fun rule => ¬ isTrue rule) (fun _ rule => isTrue rule ∧ given rule = verdict)
        rules := by
  induction rules generalizing i compiled with
  | nil =>
    cases h
    simp [firstMatch]
  | cons rule rules ih =>
    obtain ⟨program, rest, hprogram, hrest, rfl⟩ := compileRules_cons_eq_ok h
    obtain ⟨hnone, hsome⟩ := ih hrest
    have hfires : Fires ctx ⟨rule.note, program, rule.verdict⟩ ↔ isTrue rule := by
      rw [htrue, hprogram]
      simp [Fires]
    by_cases hrule : isTrue rule
    · rw [firstMatch_cons_of_fires (hfires.mpr hrule)]
      constructor
      · simp [hrule]
      · intro verdict
        rw [atFirst_cons_iff, Option.some.injEq]
        simp only [hrule, not_true, false_and, or_false, true_and]
        rfl
    · rw [firstMatch_cons_of_not_fires (mt hfires.mp hrule)]
      constructor
      · rw [hnone, List.forall_mem_cons]
        simp [hrule]
      · intro verdict
        rw [atFirst_cons_iff, hsome]
        simp [hrule]

end

/-- A configuration is refused for its first fault, is read for ever if a list is
endless, and otherwise the engine that is loaded gives each query the verdict that the
configuration gives it. -/
theorem fromConfig_correct (opened : Opened) (cfg : PolicyConfig) (cel : Cel) :
    (∀ error : ConfigError cel,
      (∃ fuel, fromConfigReads fuel opened cfg = some (.error error)) ↔
        Fault opened cfg error) ∧
    ((∀ fuel, (fromConfigReads fuel opened cfg :
      Option (Except (ConfigError cel) (PolicyEngine cel))) = none) ↔ Endless opened cfg) ∧
    ∀ (fuel : Nat) (engine : PolicyEngine cel),
      fromConfigReads fuel opened cfg = some (.ok engine) →
        ∀ (hostname : Str) (caller : Caller) (verdict : PolicyVerdict),
          engine.evaluateFor hostname caller = verdict ↔
            Means opened cfg cel hostname caller verdict := by
  refine ⟨fromConfigReads_eq_error_iff, fromConfigReads_eq_none_iff, ?_⟩
  intro fuel engine h hostname caller verdict
  obtain ⟨-, -, hrules, hdefault⟩ := fromConfigReads_eq_ok h
  obtain ⟨hnone, hsome⟩ := firstMatch_compileRules (view opened cfg hostname caller) hrules
    (IsTrueOf opened cfg cel hostname caller) (fun _ => Iff.rfl)
  rw [evaluateFor_eq, context_fromConfigReads h]
  cases hmatch : firstMatch (view opened cfg hostname caller) engine.rules with
  | some verdict' =>
    rw [Option.getD_some]
    constructor
    · rintro rfl
      exact .rule ((hsome verdict').mp hmatch)
    · intro hmeans
      cases hmeans with
      | rule hfirst => exact Option.some.inj (hmatch.symm.trans ((hsome verdict).mpr hfirst))
      | byDefault hall => cases hmatch.symm.trans (hnone.mpr hall)
  | none =>
    have hgiven : engine.default (canonicalHostname hostname) =
        givenByDefault cfg.defaultVerdict hostname := by
      rw [← hdefault]
      rfl
    rw [Option.getD_none, hgiven]
    constructor
    · rintro rfl
      exact .byDefault (hnone.mp hmatch)
    · intro hmeans
      cases hmeans with
      | rule hfirst => cases hmatch.symm.trans ((hsome verdict).mpr hfirst)
      | byDefault hall => rfl

/-- An interpreter of nothing but the names of lists, which are true of what is on
them. -/
def listed : Cel where
  Program := Str
  Other := Unit
  CompileError := Unit
  ExecutionError := Unit
  compile := .ok
  execute := fun list ctx => .ok (.bool (ctx.blockedBy list))

def adsLines : Lines := [.ok "# ads".toList, .error (.os 5), .ok "||Ads.Test^".toList]

def adsOpened : Opened := fun _ => .ok (Source.ofList adsLines)

/-- Names on a list are denied. -/
def adsConfig : PolicyConfig where
  defaultVerdict := .passthrough
  blocklists := [⟨"ads".toList, "/ads".toList⟩]
  rules := [⟨"no ads".toList, "ads".toList, .deny⟩]
  nscdUser := none
  nscdFrontend := none
  dnsFrontend := none
  nssFrontend := none

theorem fromConfig_correct_ads : ∃ engine : PolicyEngine listed,
    fromConfigReads 4 adsOpened adsConfig = some (.ok engine) ∧
      engine.evaluateFor "Sub.ads.test.".toList .unknown =
        .denied "matched rule: no ads".toList := by
  refine ⟨_, rfl, ((fromConfig_correct adsOpened adsConfig listed).2.2 4 _ rfl _ _ _).mpr ?_⟩
  have hlists : Blocklist.Lists "||Ads.Test^".toList (.domainAndSubs "Ads.Test".toList) :=
    .adBlock [] "Ads.Test".toList [] "^".toList rfl (by simp) (by simp) (by simp) (by decide)
  have hblocks : Blocklist.Blocks (trim "||Ads.Test^".toList)
      (canonicalHostname "Sub.ads.test.".toList) :=
    ⟨by unfold Blocklist.Skipped; decide, _, hlists, .inr (by decide)⟩
  have hon : OnList adsOpened adsConfig "ads".toList
      (canonicalHostname "Sub.ads.test.".toList) :=
    ⟨[], _, [], adsLines, "||Ads.Test^".toList, rfl, rfl, by simp,
      ⟨_, rfl, Reads.gives_ofList adsLines⟩, by simp [adsLines], hblocks⟩
  have htrue : IsTrueOf adsOpened adsConfig listed "Sub.ads.test.".toList .unknown
      ⟨"no ads".toList, "ads".toList, .deny⟩ :=
    ⟨"ads".toList, rfl, congrArg (fun b => Except.ok (Value.bool b))
      ((view_blockedBy_iff _ _ _ _ _).mpr hon)⟩
  exact .rule ⟨[], _, [], rfl, by simp, htrue, rfl⟩

end PolicyEngine

end Deezns
