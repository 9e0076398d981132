import Mathlib.Data.Set.Finite.Basic
import Mathlib.Order.Minimal
import Mathlib.Order.UpperLower.Closure
import Mathlib.Order.WellFounded

/-!
# Cones

A set of points together with all that is above some others. Where there is room
above every element, it is known from the least elements below its cones and the
points outside of them.
-/
namespace Cones

variable {α : Type*} [PartialOrder α]

/-- Above each element there is one outside of a finite set, with none of the set
below it but what is below the element. -/
class Roomy (α : Type*) [PartialOrder α] : Prop where
  room : ∀ (a : α) (f : Set α), f.Finite → ∃ b, a ≤ b ∧ b ∉ f ∧ ∀ c ∈ f, c ≤ b → c ≤ a

/-- A cone is not put together from finitely many points and cones that leave out its
tip. -/
theorem mem_upperClosure_of_subset [Roomy α] {a : α} {points tips : Set α}
    (hpoints : points.Finite) (htips : tips.Finite)
    (h : ∀ b, a ≤ b → b ∈ points ∪ upperClosure tips) : a ∈ upperClosure tips := by
  obtain ⟨b, hab, hnot, hroom⟩ := Roomy.room a (points ∪ tips) (hpoints.union htips)
  rcases h b hab with hmem | hmem
  · exact absurd (Or.inl hmem) hnot
  · obtain ⟨c, hc, hcb⟩ := mem_upperClosure.mp hmem
    exact mem_upperClosure.mpr ⟨c, hc, hroom c (.inr hc) hcb⟩

theorem subset_upperClosure_of_union_eq [Roomy α] {points tips points' tips' : Set α}
    (hpoints' : points'.Finite) (htips' : tips'.Finite)
    (h : points ∪ upperClosure tips = points' ∪ upperClosure tips') {a : α}
    (ha : a ∈ upperClosure tips) : a ∈ upperClosure tips' := by
  refine mem_upperClosure_of_subset hpoints' htips' fun b hab => ?_
  rw [← h]
  exact .inr ((upperClosure tips).upper hab ha)

/-- The union tells its cones from its points. -/
theorem union_upperClosure_eq_iff [Roomy α] {points tips points' tips' : Set α}
    (hpoints : points.Finite) (htips : tips.Finite) (hpoints' : points'.Finite)
    (htips' : tips'.Finite) :
    points ∪ upperClosure tips = points' ∪ upperClosure tips' ↔
      upperClosure tips = upperClosure tips' ∧
        points \ upperClosure tips = points' \ upperClosure tips' := by
  constructor
  · intro h
    have hcones : upperClosure tips = upperClosure tips' := by
      ext a
      exact ⟨subset_upperClosure_of_union_eq hpoints' htips' h,
        subset_upperClosure_of_union_eq hpoints htips h.symm⟩
    refine ⟨hcones, ?_⟩
    rw [← Set.union_sdiff_right, h, ← hcones, hcones, Set.union_sdiff_right]
  · rintro ⟨hcones, hapart⟩
    rw [← Set.sdiff_union_self, hapart, hcones, Set.sdiff_union_self]

/-- Cones are the same that have the same least elements. -/
theorem upperClosure_eq_iff [WellFoundedLT α] {tips tips' : Set α} :
    upperClosure tips = upperClosure tips' ↔
      ∀ a, Minimal (· ∈ tips) a ↔ Minimal (· ∈ tips') a := by
  have hle : ∀ {s t : Set α}, (∀ a, Minimal (· ∈ s) a ↔ Minimal (· ∈ t) a) → ∀ {a},
      a ∈ upperClosure s → a ∈ upperClosure t := by
    intro s t h a ha
    obtain ⟨b, hb, hba⟩ := mem_upperClosure.mp ha
    obtain ⟨c, hcb, hc⟩ := exists_minimal_le_of_wellFoundedLT (· ∈ s) b hb
    exact mem_upperClosure.mpr ⟨c, ((h c).mp hc).prop, hcb.trans hba⟩
  have hminimal : ∀ {s t : Set α}, upperClosure s = upperClosure t → ∀ {a},
      Minimal (· ∈ s) a → Minimal (· ∈ t) a := by
    intro s t h a ha
    have hat : a ∈ upperClosure t := h ▸ subset_upperClosure ha.prop
    obtain ⟨b, hb, hba⟩ := mem_upperClosure.mp hat
    have hbs : b ∈ upperClosure s := h ▸ subset_upperClosure hb
    obtain ⟨c, hc, hcb⟩ := mem_upperClosure.mp hbs
    have hac : a ≤ c := ha.le_of_le hc (hcb.trans hba)
    obtain rfl : a = b := le_antisymm (hac.trans hcb) hba
    refine ⟨hb, fun d hd hda => ?_⟩
    have hds : d ∈ upperClosure s := h ▸ subset_upperClosure hd
    obtain ⟨e, he, hed⟩ := mem_upperClosure.mp hds
    exact (ha.le_of_le he (hed.trans hda)).trans hed
  constructor
  · intro h a
    exact ⟨hminimal h, hminimal h.symm⟩
  · intro h
    ext a
    exact ⟨hle h, hle fun a => (h a).symm⟩

end Cones
