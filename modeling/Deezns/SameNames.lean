import Deezns.BlocklistMeaning
import Deezns.Cones
import Mathlib.Data.Set.Finite.Lattice

/-!
# When lists block the same names

The names a list blocks are cones of domains, those with their subdomains, and single
domains besides. Of the entries only those count that no other entry covers.
-/
namespace Deezns

open Utf8 (Str)
open Text

/-- A name in lower case, which is above its parent domains. -/
@[ext] structure Domain where
  text : Str
  lower : toAsciiLowercase text = text

namespace Domain

def of (hostname : Str) : Domain := ⟨toAsciiLowercase hostname, toAsciiLowercase_idem hostname⟩

theorem of_text (d : Domain) : of d.text = d := Domain.ext d.lower

instance : LE Domain := ⟨fun d e => d.text = e.text ∨ '.' :: d.text <:+ e.text⟩

theorem le_iff (d e : Domain) : d ≤ e ↔ d.text = e.text ∨ '.' :: d.text <:+ e.text := Iff.rfl

theorem length_lt_of_suffix {d e : Str} (h : '.' :: d <:+ e) : d.length < e.length := by
  have hle := h.length_le
  rw [List.length_cons] at hle
  omega

instance : PartialOrder Domain where
  le_refl d := .inl rfl
  le_trans d e f hde hef := by
    rcases hde with hde | hde
    · rw [le_iff, hde]
      exact hef
    · rcases hef with hef | hef
      · rw [le_iff, ← hef]
        exact .inr hde
      · exact .inr (hde.trans ((List.suffix_cons '.' e.text).trans hef))
  le_antisymm d e hde hed := by
    rcases hde with hde | hde
    · exact Domain.ext hde
    · rcases hed with hed | hed
      · exact Domain.ext hed.symm
      · have hlt := length_lt_of_suffix hde
        have hlt' := length_lt_of_suffix hed
        omega

theorem length_lt_of_lt {d e : Domain} (h : d < e) : d.text.length < e.text.length := by
  rcases h.le with heq | hsuffix
  · exact absurd (Domain.ext heq) h.ne
  · exact length_lt_of_suffix hsuffix

instance : WellFoundedLT Domain :=
  ⟨Subrelation.wf length_lt_of_lt (measure fun d : Domain => d.text.length).wf⟩

/-- A subdomain with a label of `n` letters. -/
def below (d : Domain) (n : Nat) : Domain where
  text := List.replicate n 'a' ++ '.' :: d.text
  lower := by
    rw [toAsciiLowercase_append, toAsciiLowercase_cons, d.lower]
    congr 1
    induction n with
    | zero => rfl
    | succ n ih =>
      rw [List.replicate_succ, toAsciiLowercase_cons, ih]
      rfl

theorem le_of_suffix_below {d e : Domain} {n : Nat} (h : '.' :: e.text <:+ (d.below n).text) :
    e ≤ d := by
  induction n with
  | zero =>
    rcases List.suffix_cons_iff.mp h with heq | hsuffix
    · exact .inl (List.cons.inj heq).2
    · exact .inr hsuffix
  | succ n ih =>
    have hcons : (d.below (n + 1)).text = 'a' :: (d.below n).text := rfl
    rw [hcons] at h
    rcases List.suffix_cons_iff.mp h with heq | hsuffix
    · exact absurd (List.cons.inj heq).1 (by decide)
    · exact ih hsuffix

instance : Cones.Roomy Domain where
  room d f hf := by
    obtain ⟨n, hn⟩ := (hf.image fun e => e.text.length).bddAbove
    have hlong : n < (d.below (n + 1)).text.length := by
      simp only [below, List.length_append, List.length_replicate, List.length_cons]
      omega
    have hnot : ∀ e ∈ f, e.text.length ≤ n := fun e he => hn ⟨e, he, rfl⟩
    refine ⟨d.below (n + 1), .inr (List.suffix_append _ _), fun hmem => ?_, fun e he hle => ?_⟩
    · have := hnot _ hmem
      omega
    · rcases hle with heq | hsuffix
      · have := hnot e he
        rw [heq] at this
        omega
      · exact le_of_suffix_below hsuffix

end Domain

namespace Blocklist

/-- The entries that stand for one domain. -/
def points (list : Blocklist) : Set Domain := {d | d.text ∈ list.exact}

/-- The entries that stand for a domain and its subdomains. -/
def tips (list : Blocklist) : Set Domain := {d | d.text ∈ list.suffixes}

theorem finite_texts (texts : Finset Str) : {d : Domain | d.text ∈ texts}.Finite :=
  texts.finite_toSet.preimage (fun _ _ _ _ h => Domain.ext h)

theorem finite_points (list : Blocklist) : list.points.Finite := finite_texts list.exact

theorem finite_tips (list : Blocklist) : list.tips.Finite := finite_texts list.suffixes

theorem lower_of_suffix {d e : Str} (hd : toAsciiLowercase d = d) (h : '.' :: e <:+ d) :
    toAsciiLowercase e = e := by
  obtain ⟨pre, rfl⟩ := h
  rw [toAsciiLowercase_append, toAsciiLowercase_cons] at hd
  exact (List.cons.inj (List.append_inj_right' hd (by simp))).2

/-- The names of a list are its points and all there is in its cones. -/
theorem contains_iff_mem (list : Blocklist) (hostname : Str) :
    list.contains hostname = true ↔
      Domain.of hostname ∈ list.points ∪ upperClosure list.tips := by
  rw [contains_iff]
  constructor
  · rintro (⟨d, hd, rfl⟩ | ⟨d, hd, hcovers⟩)
    · exact .inl hd
    · have hlower : toAsciiLowercase d = d := by
        rcases hcovers with rfl | hsuffix
        · exact toAsciiLowercase_idem hostname
        · exact lower_of_suffix (toAsciiLowercase_idem hostname) hsuffix
      exact .inr (mem_upperClosure.mpr ⟨⟨d, hlower⟩, hd, hcovers.imp Eq.symm id⟩)
  · rintro (hpoint | hcone)
    · exact .inl ⟨_, hpoint, rfl⟩
    · obtain ⟨d, hd, hle⟩ := mem_upperClosure.mp hcone
      exact .inr ⟨d.text, hd, hle.imp Eq.symm id⟩

/-- An entry for a domain and its subdomains, and no such entry is a parent of it. -/
def Least (list : Blocklist) (d : Str) : Prop :=
  d ∈ list.suffixes ∧ ∀ e ∈ list.suffixes, ¬ '.' :: e <:+ d

/-- An entry for one domain, which no other entry covers. -/
def Apart (list : Blocklist) (d : Str) : Prop :=
  d ∈ list.exact ∧ d ∉ list.suffixes ∧ ∀ e ∈ list.suffixes, ¬ '.' :: e <:+ d

theorem minimal_tips_iff (list : Blocklist) (d : Domain) :
    Minimal (· ∈ list.tips) d ↔ list.Least d.text := by
  constructor
  · intro h
    refine ⟨h.prop, fun e he hsuffix => ?_⟩
    have hle : (⟨e, lower_of_suffix d.lower hsuffix⟩ : Domain) ≤ d := .inr hsuffix
    rcases h.le_of_le he hle with heq | hsuffix'
    · have hlt := Domain.length_lt_of_suffix hsuffix
      rw [heq] at hlt
      exact Nat.lt_irrefl _ hlt
    · have hlt := Domain.length_lt_of_suffix hsuffix
      have hlt' := Domain.length_lt_of_suffix hsuffix'
      exact Nat.lt_asymm hlt hlt'
  · intro h
    refine ⟨h.1, fun e he hle => ?_⟩
    rcases hle with heq | hsuffix
    · exact .inl heq.symm
    · exact absurd hsuffix (h.2 e.text he)

theorem mem_points_diff_iff (list : Blocklist) (d : Domain) :
    d ∈ list.points \ upperClosure list.tips ↔ list.Apart d.text := by
  constructor
  · rintro ⟨hpoint, hnot⟩
    refine ⟨hpoint, fun hmem => hnot (subset_upperClosure hmem), fun e he hsuffix => hnot ?_⟩
    exact mem_upperClosure.mpr ⟨⟨e, lower_of_suffix d.lower hsuffix⟩, he, .inr hsuffix⟩
  · rintro ⟨hpoint, hnot, hparents⟩
    refine ⟨hpoint, fun hcone => ?_⟩
    obtain ⟨e, he, hle⟩ := mem_upperClosure.mp hcone
    rcases hle with heq | hsuffix
    · exact hnot (heq ▸ he)
    · exact hparents e.text he hsuffix

/-- Two lists block the same names exactly if they agree on the entries that are not
covered by others. -/
theorem same_names_iff (list list' : Blocklist) :
    (∀ hostname, list.contains hostname = list'.contains hostname) ↔
      ∀ d, toAsciiLowercase d = d →
        (list.Least d ↔ list'.Least d) ∧ (list.Apart d ↔ list'.Apart d) := by
  have hsets : (∀ hostname, list.contains hostname = list'.contains hostname) ↔
      list.points ∪ upperClosure list.tips = list'.points ∪ upperClosure list'.tips := by
    constructor
    · intro h
      ext d
      rw [← d.of_text, ← contains_iff_mem, ← contains_iff_mem, h]
    · intro h hostname
      rw [Bool.eq_iff_iff, contains_iff_mem, contains_iff_mem, h]
  rw [hsets, Cones.union_upperClosure_eq_iff list.finite_points list.finite_tips
    list'.finite_points list'.finite_tips, Cones.upperClosure_eq_iff]
  constructor
  · rintro ⟨hleast, hapart⟩ d hd
    have htip := hleast ⟨d, hd⟩
    have hpoint := Set.ext_iff.mp hapart ⟨d, hd⟩
    rw [minimal_tips_iff, minimal_tips_iff] at htip
    rw [mem_points_diff_iff, mem_points_diff_iff] at hpoint
    exact ⟨htip, hpoint⟩
  · intro h
    constructor
    · intro d
      rw [minimal_tips_iff, minimal_tips_iff]
      exact (h d.text d.lower).1
    · ext d
      rw [mem_points_diff_iff, mem_points_diff_iff]
      exact (h d.text d.lower).2

end Blocklist

end Deezns
