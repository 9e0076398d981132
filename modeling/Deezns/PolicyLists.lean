import Deezns.PolicyLaws

/-!
# Which lists a rule can ask about

Loading keeps one list for each name, the last configured one. So `blocked_by`
finds every configured list exactly when each list is covered by the last list
of its name; and a listed domain is found exactly when its line spells it the
way a canonical query does.
-/
namespace Deezns

open Utf8 (Str)
open Text

namespace PolicyEngine

variable {cel : Cel}

/-- The list of a configuration entry loads and contains the name. -/
def ListContains (files : Files) (entry : BlocklistConfig) (hostname : Str) : Prop :=
  ∃ list, Blocklist.load files entry.path entry.name = .ok list ∧ list.contains hostname = true

def lastNamed (n : Str) (entries : List BlocklistConfig) : Option BlocklistConfig :=
  entries.reverse.find? (fun entry => decide (entry.name = n))

/-- Every list of the configuration is covered by the last list of its name. -/
def LastCovers (files : Files) (entries : List BlocklistConfig) : Prop :=
  ∀ entry ∈ entries, ∀ last, lastNamed entry.name entries = some last →
    ∀ hostname, ListContains files entry (canonicalHostname hostname) →
      ListContains files last (canonicalHostname hostname)

/-- A completed load is a run of insertions, one for each entry. -/
theorem loadBlocklists_eq_ok (files : Files) (entries : List BlocklistConfig)
    (m m' : Assoc.Map Str Blocklist) (h : loadBlocklists files entries m = .ok m') :
    ∃ load : BlocklistConfig → Blocklist,
      (∀ entry ∈ entries, Blocklist.load files entry.path entry.name = .ok (load entry)) ∧
      m' = Assoc.insertAll (entries.map (fun entry => (entry.name, load entry))) m := by
  refine ⟨fun entry => ((Blocklist.load files entry.path entry.name).toOption).getD
    ⟨∅, ∅, entry.name⟩, ?_⟩
  induction entries generalizing m with
  | nil =>
    cases h
    simp [Assoc.insertAll]
  | cons entry entries ih =>
    simp only [loadBlocklists] at h
    cases hload : Blocklist.load files entry.path entry.name with
    | error e => simp [hload] at h
    | ok list =>
      simp only [hload] at h
      obtain ⟨hall, hm⟩ := ih _ h
      constructor
      · intro e he
        rcases List.mem_cons.mp he with rfl | he
        · simp [hload, Except.toOption]
        · exact hall e he
      · rw [hm]
        simp [Assoc.insertAll, hload, Except.toOption]

/-- `blocked_by` of a loaded engine asks the last list of that name. -/
theorem blockedBy_fromConfig (files : Files) (cfg : PolicyConfig) (engine : PolicyEngine cel)
    (h : fromConfig files cfg = .ok engine) (hostnameLower : Str) (caller : Caller) (n : Str) :
    (engine.context hostnameLower caller).blockedBy n = true ↔
      ∃ last, lastNamed n cfg.blocklists = some last ∧ ListContains files last hostnameLower := by
  simp only [fromConfig] at h
  cases hload : loadBlocklists files cfg.blocklists ∅ with
  | error e => simp [hload] at h
  | ok m =>
    have hengine : engine.blocklists = m := by
      simp only [hload] at h
      split at h
      · cases h
      · cases h
        rfl
    obtain ⟨load, hall, hm⟩ := loadBlocklists_eq_ok files cfg.blocklists ∅ m hload
    have hfind : m.lookup n = (lastNamed n cfg.blocklists).map load := by
      rw [hm, Assoc.lookup_insertAll, ← List.map_reverse, List.find?_map]
      simp [lastNamed, Function.comp_def]
    simp only [context, Assoc.lookup_mapValues, hengine, hfind]
    cases hlast : lastNamed n cfg.blocklists with
    | none => simp
    | some last =>
      have hmem : last ∈ cfg.blocklists := List.mem_reverse.mp (List.mem_of_find?_eq_some hlast)
      simp [ListContains, hall last hmem]

/-- No configured list is lost exactly when the last list of each name covers
the ones it replaces. -/
theorem blockedBy_finds_every_list_iff (files : Files) (cfg : PolicyConfig)
    (engine : PolicyEngine cel) (h : fromConfig files cfg = .ok engine) :
    (∀ hostname caller n,
      ((engine.context (canonicalHostname hostname) caller).blockedBy n = true ↔
        ∃ entry ∈ cfg.blocklists, entry.name = n ∧
          ListContains files entry (canonicalHostname hostname))) ↔
      LastCovers files cfg.blocklists := by
  have hnamed : ∀ n last, lastNamed n cfg.blocklists = some last →
      last ∈ cfg.blocklists ∧ last.name = n := by
    intro n last hlast
    exact ⟨List.mem_reverse.mp (List.mem_of_find?_eq_some hlast),
      by simpa using List.find?_some hlast⟩
  constructor
  · intro hfinds entry hentry last hlast hostname hcontains
    have hblocked := (hfinds hostname .unknown entry.name).mpr ⟨entry, hentry, rfl, hcontains⟩
    obtain ⟨last', hlast', hcontains'⟩ :=
      (blockedBy_fromConfig files cfg engine h _ _ _).mp hblocked
    rw [hlast] at hlast'
    cases hlast'
    exact hcontains'
  · intro hcovers hostname caller n
    rw [blockedBy_fromConfig files cfg engine h]
    constructor
    · rintro ⟨last, hlast, hcontains⟩
      obtain ⟨hmem, hname⟩ := hnamed n last hlast
      exact ⟨last, hmem, hname, hcontains⟩
    · rintro ⟨entry, hentry, rfl, hcontains⟩
      cases hlast : lastNamed entry.name cfg.blocklists with
      | none =>
        have hno := List.find?_eq_none.mp hlast entry (List.mem_reverse.mpr hentry)
        simp at hno
      | some last => exact ⟨last, rfl, hcovers entry hentry last hlast hostname hcontains⟩

/-- Two files of one domain each, and any other with both. -/
def listFiles : Files := fun path =>
  if path = "/a".toList then .ok [.ok "a.test".toList]
  else if path = "/b".toList then .ok [.ok "b.test".toList]
  else .ok [.ok "a.test".toList, .ok "b.test".toList]

/-- A configuration of the given lists and nothing else. -/
def listsOnly (entries : List BlocklistConfig) : PolicyConfig where
  defaultVerdict := .passthrough
  blocklists := entries
  rules := []
  nscdUser := none
  nscdFrontend := none
  dnsFrontend := none
  nssFrontend := none

/-- Two lists of one name, the second with all of the first, and one of another. -/
def coveredLists : List BlocklistConfig :=
  [⟨"ads".toList, "/a".toList⟩, ⟨"bad".toList, "/b".toList⟩, ⟨"ads".toList, "/both".toList⟩]

theorem blockedBy_finds_every_list_covered :
    ∃ engine : PolicyEngine Cel.direct, fromConfig listFiles (listsOnly coveredLists) = .ok engine ∧
      (engine.context (canonicalHostname "A.test.".toList) .unknown).blockedBy "ads".toList =
        true ∧
      (engine.context (canonicalHostname "b.test".toList) .unknown).blockedBy "bad".toList =
        true ∧
      (engine.context (canonicalHostname "a.test".toList) .unknown).blockedBy "bad".toList =
        false := by
  have hcovers : LastCovers listFiles (listsOnly coveredLists).blocklists := by
    intro entry hentry last hlast hostname hcontains
    simp only [listsOnly, coveredLists, List.mem_cons, List.not_mem_nil, or_false] at hentry
    obtain rfl | rfl | rfl := hentry
    · obtain rfl : ⟨"ads".toList, "/both".toList⟩ = last := Option.some.inj hlast
      obtain ⟨list, hload, hcontains⟩ := hcontains
      cases hload
      refine ⟨_, rfl, ?_⟩
      rw [Blocklist.contains_parse_iff] at hcontains ⊢
      obtain ⟨line, hline, hblocks⟩ := hcontains
      exact ⟨line, List.mem_append_left [_] hline, hblocks⟩
    · obtain rfl : ⟨"bad".toList, "/b".toList⟩ = last := Option.some.inj hlast
      exact hcontains
    · obtain rfl : ⟨"ads".toList, "/both".toList⟩ = last := Option.some.inj hlast
      exact hcontains
  refine ⟨_, rfl, ?_⟩
  have hfinds := (@blockedBy_finds_every_list_iff Cel.direct listFiles
    (listsOnly coveredLists) _ rfl).mpr hcovers
  have hads := (hfinds "A.test.".toList .unknown "ads".toList).mpr
    ⟨⟨"ads".toList, "/a".toList⟩, List.mem_cons_self, rfl, _, rfl, by decide⟩
  have hbad := (hfinds "b.test".toList .unknown "bad".toList).mpr
    ⟨⟨"bad".toList, "/b".toList⟩, by simp [listsOnly, coveredLists], rfl, _, rfl, by decide⟩
  exact ⟨hads, hbad, by decide⟩

/-- Of two lists of one name only the second is asked. -/
theorem blockedBy_loses_replaced_list :
    ∃ engine : PolicyEngine Cel.direct,
      fromConfig listFiles (listsOnly [⟨"ads".toList, "/a".toList⟩, ⟨"ads".toList, "/b".toList⟩]) =
        .ok engine ∧
      (∃ entry ∈ [(⟨"ads".toList, "/a".toList⟩ : BlocklistConfig), ⟨"ads".toList, "/b".toList⟩],
        entry.name = "ads".toList ∧
        ListContains listFiles entry (canonicalHostname "a.test".toList)) ∧
      (engine.context (canonicalHostname "a.test".toList) .unknown).blockedBy "ads".toList =
        false := by
  refine ⟨_, rfl, ⟨_, List.mem_cons_self, rfl, _, rfl, by decide⟩, by decide⟩

end PolicyEngine

/-- The line lists the domain in the spelling given, in one of the formats. -/
def ListsSpelling (line spelling : Str) : Prop :=
  ¬ Blocklist.Skipped (trim line) ∧ ∃ entry, Blocklist.Lists (trim line) entry ∧
    (entry = .exact spelling ∨ entry = .domainAndSubs spelling)

/-- What a line stating an entry blocks, in terms of the spelling it uses. -/
theorem blocks_iff_of_listsSpelling {line spelling : Str} (h : ListsSpelling line spelling)
    (hostname : Str) (hname : canonicalHostname hostname = canonicalHostname spelling) :
    Blocklist.Blocks (trim line) (canonicalHostname hostname) ↔ NoTrailingDot spelling := by
  obtain ⟨hskip, entry, hlists, hentry⟩ := h
  have hne : spelling ≠ [] := by
    rcases hentry with rfl | rfl
    · cases hlists with
      | domainOnly _ _ _ _ hd => exact ((Blocklist.isValidDomain_iff _).mp hd).1
      | hosts _ _ _ _ _ _ _ hd => exact ((Blocklist.isValidDomain_iff _).mp hd).1
    · cases hlists with
      | adBlock _ _ _ _ _ _ _ _ hd => exact ((Blocklist.isValidDomain_iff _).mp hd).1
  have hcanon := toAsciiLowercase_eq_canonicalHostname_iff spelling hne
  -- the query is no longer than the entry, so it is no proper subdomain of it
  have hsub : ¬ '.' :: toAsciiLowercase spelling <:+ canonicalHostname spelling := by
    intro hs
    have hlen := hs.length_le
    have hle := length_canonicalHostname_le spelling hne
    rw [List.length_cons, length_toAsciiLowercase] at hlen
    omega
  have hmatch : ∀ e : BlocklistEntry, (e = .exact spelling ∨ e = .domainAndSubs spelling) →
      (e.Matches (canonicalHostname hostname) ↔ NoTrailingDot spelling) := by
    rintro e (rfl | rfl)
    · simp only [BlocklistEntry.Matches, toAsciiLowercase_canonicalHostname, hname]
      rw [eq_comm, hcanon]
    · simp only [BlocklistEntry.Matches, toAsciiLowercase_canonicalHostname, hname, hsub, or_false]
      rw [eq_comm, hcanon]
  constructor
  · rintro ⟨_, entry', hlists', hentry'⟩
    -- a line states one entry only, up to case
    have hparse := (Blocklist.parseLine_eq_some_iff _ _).mpr ⟨entry, hlists, rfl⟩
    have hparse' := (Blocklist.parseLine_eq_some_iff _ _).mpr ⟨entry', hlists', rfl⟩
    rw [hparse] at hparse'
    have hsame : entry.toAsciiLowercase = entry'.toAsciiLowercase := Option.some.inj hparse'
    rw [← BlocklistEntry.matches_toAsciiLowercase, ← hsame,
      BlocklistEntry.matches_toAsciiLowercase] at hentry'
    exact (hmatch entry hentry).mp hentry'
  · intro hdot
    exact ⟨hskip, entry, hlists, (hmatch entry hentry).mpr hdot⟩

namespace PolicyEngine

variable {cel : Cel}

/-- A listed domain is blocked in all its spellings exactly when the list spells
it without a trailing dot, or lists it on another line as well. -/
theorem blockedBy_listed_domain_iff (engine : PolicyEngine cel) (rule : CompiledRule cel)
    (n : Str) (hrule : ∀ ctx, rule.outcome ctx = .ok (.bool (ctx.blockedBy n)))
    (before after : Lines) (line spelling name : Str)
    (hlist : engine.blocklists.lookup n =
      some (Blocklist.parse (before ++ .ok line :: after) name))
    (hline : ListsSpelling line spelling) (hostname : Str)
    (hname : canonicalHostname hostname = canonicalHostname spelling) (caller : Caller) :
    Fires (engine.context (canonicalHostname hostname) caller) rule ↔
      NoTrailingDot spelling ∨ ∃ other, Except.ok other ∈ before ++ after ∧
        Blocklist.Blocks (trim other) (canonicalHostname hostname) := by
  have hfires : Fires (engine.context (canonicalHostname hostname) caller) rule ↔
      (Blocklist.parse (before ++ .ok line :: after) name).contains
        (canonicalHostname hostname) = true := by
    have hexecute : ∀ ctx, cel.execute rule.program ctx = .ok (.bool (ctx.blockedBy n)) := hrule
    simp [Fires, hexecute, context, hlist]
  rw [hfires, Blocklist.contains_parse_iff, ← blocks_iff_of_listsSpelling hline hostname hname]
  constructor
  · rintro ⟨other, hmem, hblocks⟩
    rcases List.mem_append.mp hmem with h | h
    · exact .inr ⟨other, by simp [h], hblocks⟩
    · rcases List.mem_cons.mp h with h | h
      · cases h
        exact .inl hblocks
      · exact .inr ⟨other, by simp [h], hblocks⟩
  · rintro (hblocks | ⟨other, hmem, hblocks⟩)
    · exact ⟨line, by simp, hblocks⟩
    · refine ⟨other, ?_, hblocks⟩
      rcases List.mem_append.mp hmem with h | h <;> simp [h]

/-- A rule that denies what a list holds. -/
def adsRule : CompiledRule Cel.direct :=
  ⟨"ads".toList, fun ctx => .ok (.bool (ctx.blockedBy "ads".toList)), .deny⟩

/-- A policy of that rule, with a list of one line. -/
def listEngine (line : Str) : PolicyEngine Cel.direct where
  rules := [adsRule]
  blocklists := (∅ : Assoc.Map Str Blocklist).insert "ads".toList
    (Blocklist.parse [.ok line] "ads".toList)
  defaultVerdict := .passthrough

theorem blockedBy_listed_domain_plain :
    Fires ((listEngine "0.0.0.0 Ads.Test".toList).context
      (canonicalHostname "ads.TEST..".toList) .unknown) adsRule := by
  have hline : ListsSpelling "0.0.0.0 Ads.Test".toList "Ads.Test".toList :=
    ⟨by unfold Blocklist.Skipped; decide, _,
      .hosts "0.0.0.0".toList "Ads.Test".toList [] (by decide) (by decide) (by decide) (by decide)
        (by decide), .inl rfl⟩
  exact (blockedBy_listed_domain_iff (listEngine "0.0.0.0 Ads.Test".toList) adsRule "ads".toList
    (fun ctx => rfl) [] [] _ _ "ads".toList rfl hline _ (by decide) .unknown).mpr
    (.inl (by decide))

/-- A list that writes the domain with its trailing dot blocks nothing. -/
theorem blockedBy_misses_trailing_dot :
    ListsSpelling "Ads.Test.".toList "Ads.Test.".toList ∧
    canonicalHostname "ads.test".toList = canonicalHostname "Ads.Test.".toList ∧
    adsRule.outcome ((listEngine "Ads.Test.".toList).context
      (canonicalHostname "ads.test".toList) .unknown) = .ok (.bool false) ∧
    (listEngine "Ads.Test.".toList).evaluateFor "ads.test".toList .unknown = .passThrough := by
  refine ⟨⟨by unfold Blocklist.Skipped; decide, _,
    .domainOnly "Ads.Test.".toList (by decide) (by decide) (by decide) (by decide), .inl rfl⟩,
    by decide, rfl, rfl⟩

end PolicyEngine

end Deezns
