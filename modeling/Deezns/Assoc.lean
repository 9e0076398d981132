import Mathlib.Data.List.AList
import Mathlib.Data.List.Induction

/-!
# Hash maps

A hash map is an association list without duplicate keys. Its values can be
mapped, and after a run of insertions a key holds the value it was last given.
-/
namespace Assoc

abbrev Map (κ ν : Type) := AList (fun _ : κ => ν)

variable {κ ν μ : Type} [DecidableEq κ]

def mapValues (f : ν → μ) (m : Map κ ν) : Map κ μ :=
  ⟨m.entries.map (Sigma.map id (fun _ => f)), List.NodupKeys.map₂ (fun _ => f) _ m.nodupKeys⟩

@[simp] theorem lookup_mapValues (f : ν → μ) (m : Map κ ν) (k : κ) :
    (mapValues f m).lookup k = (m.lookup k).map f :=
  List.dlookup_map₂ (γ := fun _ => ν) (δ := fun _ => μ) k

def insertAll (entries : List (κ × ν)) (m : Map κ ν) : Map κ ν :=
  entries.foldl (fun m e => m.insert e.1 e.2) m

theorem insertAll_concat (entries : List (κ × ν)) (e : κ × ν) (m : Map κ ν) :
    insertAll (entries ++ [e]) m = (insertAll entries m).insert e.1 e.2 := by
  simp [insertAll]

theorem lookup_insertAll (entries : List (κ × ν)) (m : Map κ ν) (k : κ) :
    (insertAll entries m).lookup k =
      ((entries.reverse.find? (fun e => decide (e.1 = k))).map Prod.snd).or (m.lookup k) := by
  induction entries using List.reverseRecOn with
  | nil => simp [insertAll]
  | append_singleton entries e ih =>
    rw [insertAll_concat]
    simp only [List.reverse_append, List.reverse_singleton, List.singleton_append,
      List.find?_cons]
    by_cases h : e.1 = k
    · subst h
      simp [AList.lookup_insert]
    · simp only [decide_eq_false h]
      rw [AList.lookup_insert_ne (Ne.symm h), ih]

end Assoc
