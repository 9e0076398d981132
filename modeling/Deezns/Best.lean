import Mathlib.Data.List.Induction
import Mathlib.Order.Lattice

/-!
# The best of a list in one pass

A scan keeps the elements of the best score so far, in their order. What it
ends with are the elements no other element of the list outdoes.
-/
namespace Best

variable {α β γ : Type} [LinearOrder β]

structure Acc (α β : Type) where
  best : List α
  bestScore : β

/-- One element of the scan; an element without a score is passed over. -/
def step (score : α → Option β) (acc : Acc α β) (x : α) : Acc α β :=
  match score x with
  | none => acc
  | some s =>
    if acc.best.isEmpty || decide (acc.bestScore < s) then ⟨[x], s⟩
    else if s = acc.bestScore then { acc with best := acc.best ++ [x] }
    else acc

def scan (score : α → Option β) (start : β) (l : List α) : List α :=
  (l.foldl (step score) ⟨[], start⟩).best

/-- The element has a score, and no element of the list has a higher one. -/
def isBest (score : α → Option β) (l : List α) (x : α) : Bool :=
  (score x).any (fun s => l.all (fun y => (score y).all (fun t => decide (t ≤ s))))

def bestOf (score : α → Option β) (l : List α) : List α := l.filter (isBest score l)

theorem isBest_iff (score : α → Option β) (l : List α) (x : α) : isBest score l x = true ↔
    ∃ s, score x = some s ∧ ∀ y ∈ l, ∀ t, score y = some t → t ≤ s := by
  simp [isBest, Option.any_eq_true, Option.all_eq_true]

theorem mem_bestOf (score : α → Option β) (l : List α) (x : α) : x ∈ bestOf score l ↔
    x ∈ l ∧ ∃ s, score x = some s ∧ ∀ y ∈ l, ∀ t, score y = some t → t ≤ s := by
  rw [bestOf, List.mem_filter, isBest_iff]

/-- The list has a highest score. -/
def IsTop (score : α → Option β) (l : List α) (s : β) : Prop :=
  (∃ x ∈ l, score x = some s) ∧ ∀ y ∈ l, ∀ t, score y = some t → t ≤ s

theorem bestOf_of_isTop {score : α → Option β} {l : List α} {s : β} (h : IsTop score l s) :
    bestOf score l = l.filter (fun x => decide (score x = some s)) := by
  obtain ⟨⟨top, htop, hscore⟩, hle⟩ := h
  apply List.filter_congr
  intro x hx
  rw [Bool.eq_iff_iff, isBest_iff, decide_eq_true_eq]
  constructor
  · rintro ⟨t, ht, hall⟩
    rw [ht, le_antisymm (hle x hx t ht) (hall top htop s hscore)]
  · intro hs
    exact ⟨s, hs, hle⟩

theorem bestOf_of_unscored {score : α → Option β} {l : List α} (h : ∀ x ∈ l, score x = none) :
    bestOf score l = [] := by
  rw [bestOf, List.filter_eq_nil_iff]
  intro x hx
  simp [isBest, h x hx]

/-- What the scan knows of the elements it has seen. -/
def Inv (score : α → Option β) (l : List α) (acc : Acc α β) : Prop :=
  (acc.best = [] ∧ ∀ x ∈ l, score x = none) ∨
  (IsTop score l acc.bestScore ∧
    acc.best = l.filter (fun x => decide (score x = some acc.bestScore)))

theorem IsTop.best_ne_nil {score : α → Option β} {l : List α} {s : β} (h : IsTop score l s) :
    l.filter (fun x => decide (score x = some s)) ≠ [] := by
  obtain ⟨⟨top, htop, hscore⟩, _⟩ := h
  exact List.ne_nil_of_mem (List.mem_filter.mpr ⟨htop, decide_eq_true hscore⟩)

/-- An element above everything seen starts afresh. -/
theorem inv_restart {score : α → Option β} {l : List α} {x : α} {s : β} (hx : score x = some s)
    (h : ∀ y ∈ l, ∀ t, score y = some t → t < s) : Inv score (l ++ [x]) ⟨[x], s⟩ := by
  refine .inr ⟨⟨⟨x, by simp, hx⟩, ?_⟩, ?_⟩
  · intro y hy t ht
    rcases List.mem_append.mp hy with hy | hy
    · exact le_of_lt (h y hy t ht)
    · rw [List.mem_singleton.mp hy, hx] at ht
      exact le_of_eq (Option.some.inj ht.symm)
  · have hnone : l.filter (fun y => decide (score y = some s)) = [] := by
      rw [List.filter_eq_nil_iff]
      intro y hy hs
      exact lt_irrefl s (h y hy s (of_decide_eq_true hs))
    simp [List.filter_append, hnone, hx]

theorem IsTop.concat {score : α → Option β} {l : List α} {x : α} {s : β} (h : IsTop score l s)
    (hx : ∀ t, score x = some t → t ≤ s) : IsTop score (l ++ [x]) s := by
  obtain ⟨⟨top, htop, hscore⟩, hle⟩ := h
  refine ⟨⟨top, by simp [htop], hscore⟩, ?_⟩
  intro y hy t ht
  rcases List.mem_append.mp hy with hy | hy
  · exact hle y hy t ht
  · exact hx t (by rwa [List.mem_singleton.mp hy] at ht)

theorem inv_step {score : α → Option β} {l : List α} {acc : Acc α β} (h : Inv score l acc)
    (x : α) : Inv score (l ++ [x]) (step score acc x) := by
  cases hx : score x with
  | none =>
    simp only [step, hx]
    rcases h with ⟨hbest, hnone⟩ | ⟨htop, hbest⟩
    · refine .inl ⟨hbest, ?_⟩
      intro y hy
      rcases List.mem_append.mp hy with hy | hy
      · exact hnone y hy
      · rwa [List.mem_singleton.mp hy]
    · exact .inr ⟨htop.concat (by simp [hx]), by simp [hbest, hx]⟩
  | some s =>
    simp only [step, hx]
    rcases h with ⟨hbest, hnone⟩ | ⟨htop, hbest⟩
    · simp only [hbest, List.isEmpty_nil, Bool.true_or, if_true]
      exact inv_restart hx (fun y hy t ht => by simp [hnone y hy] at ht)
    · have hne : acc.best.isEmpty = false := by
        rw [hbest]
        simpa using htop.best_ne_nil
      simp only [hne, Bool.false_or, decide_eq_true_eq]
      split
      · next hlt => exact inv_restart hx (fun y hy t ht => (htop.2 y hy t ht).trans_lt hlt)
      · next hnlt =>
        have hle := not_lt.mp hnlt
        have htop' : IsTop score (l ++ [x]) acc.bestScore :=
          htop.concat (fun t ht => by rw [hx] at ht; cases ht; exact hle)
        split
        · next heq =>
          subst heq
          exact .inr ⟨htop', by simp [hbest, hx]⟩
        · next hneq => exact .inr ⟨htop', by simp [hbest, hx, hneq]⟩

theorem inv_foldl (score : α → Option β) (start : β) (l : List α) :
    Inv score l (l.foldl (step score) ⟨[], start⟩) := by
  induction l using List.reverseRecOn with
  | nil => exact .inl ⟨rfl, by simp⟩
  | append_singleton l x ih =>
    rw [List.foldl_append, List.foldl_cons, List.foldl_nil]
    exact inv_step ih x

/-- The scan finds the best elements, whatever score it starts from. -/
theorem scan_eq_bestOf (score : α → Option β) (start : β) (l : List α) :
    scan score start l = bestOf score l := by
  rcases inv_foldl score start l with ⟨hbest, hnone⟩ | ⟨htop, hbest⟩
  · rw [scan, hbest, bestOf_of_unscored hnone]
  · rw [scan, hbest, bestOf_of_isTop htop]

theorem exists_isTop_or_unscored (score : α → Option β) (l : List α) :
    (∃ s, IsTop score l s) ∨ ∀ x ∈ l, score x = none := by
  by_cases h : ∀ x ∈ l, score x = none
  · exact .inr h
  · push Not at h
    obtain ⟨x, _, hx⟩ := h
    obtain ⟨s, _⟩ := Option.ne_none_iff_exists'.mp hx
    rcases inv_foldl score s l with ⟨_, hnone⟩ | ⟨htop, _⟩
    · exact .inr hnone
    · exact .inl ⟨_, htop⟩

/-- Elements of equal score are best together. -/
theorem mem_bestOf_of_score_eq {score : α → Option β} {l : List α} {x y : α}
    (hx : x ∈ bestOf score l) (hy : y ∈ l) (h : score y = score x) : y ∈ bestOf score l := by
  rw [mem_bestOf] at hx ⊢
  exact ⟨hy, h ▸ hx.2⟩

theorem bestOf_map (score : γ → Option β) (f : α → γ) (l : List α) :
    bestOf score (l.map f) = (bestOf (fun x => score (f x)) l).map f := by
  rw [bestOf, bestOf, List.filter_map]
  congr 1
  apply List.filter_congr
  intro x hx
  simp [isBest, Function.comp_def]

/-- Dropping elements that are not best keeps the best ones. -/
theorem bestOf_filter_of_forall (score : α → Option β) (l : List α) (p : α → Bool)
    (h : ∀ x ∈ bestOf score l, p x = true) : bestOf score (l.filter p) = bestOf score l := by
  rcases exists_isTop_or_unscored score l with ⟨s, htop⟩ | hnone
  · have hp : ∀ x ∈ l, score x = some s → p x = true := by
      intro x hx hs
      apply h
      rw [bestOf_of_isTop htop]
      exact List.mem_filter.mpr ⟨hx, decide_eq_true hs⟩
    obtain ⟨top, htopmem, hscore⟩ := htop.1
    have htop' : IsTop score (l.filter p) s :=
      ⟨⟨top, List.mem_filter.mpr ⟨htopmem, hp top htopmem hscore⟩, hscore⟩,
        fun y hy => htop.2 y ((List.mem_filter.mp hy).1)⟩
    rw [bestOf_of_isTop htop, bestOf_of_isTop htop', List.filter_filter]
    apply List.filter_congr
    intro x hx
    by_cases hs : score x = some s
    · simp [hs, hp x hx hs]
    · simp [hs]
  · rw [bestOf_of_unscored hnone]
    exact bestOf_of_unscored (fun x hx => hnone x (List.mem_filter.mp hx).1)

/-- Scores may sink anywhere but at the best elements. -/
theorem bestOf_congr_of_le {score score' : α → Option β} {l : List α}
    (hle : ∀ x ∈ l, ∀ t, score' x = some t → ∃ s, score x = some s ∧ t ≤ s)
    (hbest : ∀ x ∈ bestOf score l, score' x = score x) : bestOf score' l = bestOf score l := by
  rcases exists_isTop_or_unscored score l with ⟨s, htop⟩ | hnone
  · have hkeep : ∀ x ∈ l, score x = some s → score' x = some s := by
      intro x hx hs
      rw [hbest x, hs]
      rw [bestOf_of_isTop htop]
      exact List.mem_filter.mpr ⟨hx, decide_eq_true hs⟩
    have hsink : ∀ x ∈ l, ∀ t, score' x = some t → t ≤ s := by
      intro x hx t ht
      obtain ⟨s', hs', hts'⟩ := hle x hx t ht
      exact hts'.trans (htop.2 x hx s' hs')
    obtain ⟨top, htopmem, hscore⟩ := htop.1
    have htop' : IsTop score' l s := ⟨⟨top, htopmem, hkeep top htopmem hscore⟩, hsink⟩
    rw [bestOf_of_isTop htop, bestOf_of_isTop htop']
    apply List.filter_congr
    intro x hx
    rw [decide_eq_decide]
    constructor
    · intro hs'
      obtain ⟨t, ht, hst⟩ := hle x hx s hs'
      rw [ht, le_antisymm (htop.2 x hx t ht) hst]
    · exact hkeep x hx
  · have hnone' : ∀ x ∈ l, score' x = none := by
      intro x hx
      cases h : score' x with
      | none => rfl
      | some t =>
        obtain ⟨s, hs, _⟩ := hle x hx t h
        rw [hnone x hx] at hs
        cases hs
    rw [bestOf_of_unscored hnone, bestOf_of_unscored hnone']

/-- The best of a list does not depend on its order. -/
theorem bestOf_perm (score : α → Option β) {l l' : List α} (h : l.Perm l') :
    (bestOf score l).Perm (bestOf score l') := by
  have hsame : bestOf score l' = l'.filter (isBest score l) := by
    apply List.filter_congr
    intro x _
    rw [Bool.eq_iff_iff, isBest_iff, isBest_iff]
    simp only [h.mem_iff]
  rw [hsame]
  exact h.filter _

/-- An element that has no score, or one that is outdone. -/
def Outdone (score : α → Option β) (l : List α) (x : α) : Prop :=
  ∀ s, score x = some s → ∃ y ∈ l, ∃ t, score y = some t ∧ s < t

/-- Outdone elements make no difference. -/
theorem bestOf_append_of_outdone {score : α → Option β} {l extra : List α}
    (h : ∀ x ∈ extra, Outdone score l x) : bestOf score (l ++ extra) = bestOf score l := by
  rcases exists_isTop_or_unscored score l with ⟨s, htop⟩ | hnone
  · have hbelow : ∀ x ∈ extra, ∀ t, score x = some t → t < s := by
      intro x hx t ht
      obtain ⟨y, hy, t', ht', hlt⟩ := h x hx t ht
      exact hlt.trans_le (htop.2 y hy t' ht')
    have htop' : IsTop score (l ++ extra) s := by
      obtain ⟨⟨top, htopmem, hscore⟩, hle⟩ := htop
      refine ⟨⟨top, by simp [htopmem], hscore⟩, ?_⟩
      intro y hy t ht
      rcases List.mem_append.mp hy with hy | hy
      · exact hle y hy t ht
      · exact (hbelow y hy t ht).le
    have hnot : extra.filter (fun x => decide (score x = some s)) = [] := by
      rw [List.filter_eq_nil_iff]
      intro x hx hs
      exact lt_irrefl s (hbelow x hx s (of_decide_eq_true hs))
    rw [bestOf_of_isTop htop, bestOf_of_isTop htop', List.filter_append, hnot, List.append_nil]
  · have hnone' : ∀ x ∈ l ++ extra, score x = none := by
      intro x hx
      rcases List.mem_append.mp hx with hx | hx
      · exact hnone x hx
      · by_contra hscore
        obtain ⟨s, hs⟩ := Option.ne_none_iff_exists'.mp hscore
        obtain ⟨y, hy, t, ht, _⟩ := h x hx s hs
        rw [hnone y hy] at ht
        cases ht
    rw [bestOf_of_unscored hnone, bestOf_of_unscored hnone']

end Best
