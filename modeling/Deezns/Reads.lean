/-!
# Reading to the end

A source gives one item after the other, and nothing at its end, which may never
come. A loop over its items is over exactly if it does, with the items before
it folded.
-/
namespace Reads

variable {α β : Type}

/-- What each read gives. -/
abbrev Source (α : Type) := Nat → Option α

/-- A loop over the items from a position on, in at most as many turns as there
is fuel. -/
def fold (f : β → α → β) (source : Source α) : Nat → Nat → β → Option β
  | 0, _, _ => none
  | fuel + 1, pos, acc =>
    match source pos with
    | none => some acc
    | some a => fold f source fuel (pos + 1) (f acc a)

/-- The items from a position on, up to the end. -/
inductive Gives (source : Source α) : Nat → List α → Prop where
  | nil (pos : Nat) (h : source pos = none) : Gives source pos []
  | cons (pos : Nat) (a : α) (items : List α) (h : source pos = some a)
      (rest : Gives source (pos + 1) items) : Gives source pos (a :: items)

def Source.ofList (items : List α) : Source α := fun pos => items[pos]?

theorem fold_eq_some_iff (f : β → α → β) (source : Source α) (fuel pos : Nat) (acc out : β) :
    fold f source fuel pos acc = some out ↔
      ∃ items, Gives source pos items ∧ items.length < fuel ∧ out = items.foldl f acc := by
  induction fuel generalizing pos acc with
  | zero => simp [fold]
  | succ fuel ih =>
    rw [fold]
    cases hread : source pos with
    | none =>
      constructor
      · intro h
        cases h
        exact ⟨[], .nil pos hread, Nat.zero_lt_succ fuel, rfl⟩
      · rintro ⟨items, hgives, _, rfl⟩
        cases hgives with
        | nil => rfl
        | cons _ a items h rest =>
          rw [hread] at h
          cases h
    | some a =>
      simp only [ih]
      constructor
      · rintro ⟨items, hgives, hlen, rfl⟩
        exact ⟨a :: items, .cons pos a items hread hgives, Nat.succ_lt_succ hlen, rfl⟩
      · rintro ⟨items, hgives, hlen, rfl⟩
        cases hgives with
        | nil _ h =>
          rw [hread] at h
          cases h
        | cons _ a' items h rest =>
          rw [hread] at h
          cases h
          exact ⟨items, rest, Nat.lt_of_succ_lt_succ hlen, rfl⟩

theorem Gives.end_eq_none {source : Source α} {pos : Nat} {items : List α}
    (h : Gives source pos items) : source (pos + items.length) = none := by
  induction h with
  | nil pos h => exact h
  | cons pos a items h rest ih =>
    rw [List.length_cons, ← Nat.add_assoc, Nat.add_right_comm]
    exact ih

theorem Gives.unique {source : Source α} {pos : Nat} {items items' : List α}
    (h : Gives source pos items) (h' : Gives source pos items') : items = items' := by
  induction h generalizing items' with
  | nil pos h =>
    cases h' with
    | nil => rfl
    | cons _ a' _ hread =>
      rw [h] at hread
      cases hread
  | cons pos a items h rest ih =>
    cases h' with
    | nil _ hread =>
      rw [h] at hread
      cases hread
    | cons _ a' _ hread rest' =>
      rw [h] at hread
      cases hread
      rw [ih rest']

/-- A source that ends somewhere gives finitely many items. -/
theorem exists_gives_of_end {source : Source α} {n pos : Nat} (h : source (pos + n) = none) :
    ∃ items, Gives source pos items := by
  induction n generalizing pos with
  | zero => exact ⟨[], .nil pos h⟩
  | succ n ih =>
    cases hread : source pos with
    | none => exact ⟨[], .nil pos hread⟩
    | some a =>
      have hnext : source (pos + 1 + n) = none := by
        rw [Nat.add_assoc, Nat.add_comm 1 n]
        exact h
      obtain ⟨items, hgives⟩ := ih hnext
      exact ⟨a :: items, .cons pos a items hread hgives⟩

theorem exists_gives_iff (source : Source α) :
    (∃ items, Gives source 0 items) ↔ ∃ n, source n = none := by
  constructor
  · rintro ⟨items, hgives⟩
    exact ⟨_, hgives.end_eq_none⟩
  · rintro ⟨n, h⟩
    exact exists_gives_of_end (show source (0 + n) = none by rwa [Nat.zero_add])

/-- A loop is over at some time exactly if its source ends. -/
theorem exists_fold_iff (f : β → α → β) (source : Source α) (acc : β) :
    (∃ fuel out, fold f source fuel 0 acc = some out) ↔ ∃ n, source n = none := by
  rw [← exists_gives_iff]
  constructor
  · rintro ⟨fuel, out, h⟩
    obtain ⟨items, hgives, _⟩ := (fold_eq_some_iff _ _ _ _ _ _).mp h
    exact ⟨items, hgives⟩
  · rintro ⟨items, hgives⟩
    exact ⟨items.length + 1, _,
      (fold_eq_some_iff _ _ _ _ _ _).mpr ⟨items, hgives, Nat.lt_succ_self _, rfl⟩⟩

/-- More turns make no difference to a loop that is over. -/
theorem fold_mono {f : β → α → β} {source : Source α} {fuel fuel' pos : Nat} {acc out : β}
    (h : fold f source fuel pos acc = some out) (hle : fuel ≤ fuel') :
    fold f source fuel' pos acc = some out := by
  obtain ⟨items, hgives, hlen, hout⟩ := (fold_eq_some_iff _ _ _ _ _ _).mp h
  exact (fold_eq_some_iff _ _ _ _ _ _).mpr ⟨items, hgives, Nat.lt_of_lt_of_le hlen hle, hout⟩

theorem gives_ofList (items : List α) : Gives (Source.ofList items) 0 items := by
  have hdrop : ∀ rest : List α, ∀ pos, items.drop pos = rest →
      Gives (Source.ofList items) pos rest := by
    intro rest
    induction rest with
    | nil =>
      intro pos h
      exact .nil pos (List.getElem?_eq_none (List.drop_eq_nil_iff.mp h))
    | cons a rest ih =>
      intro pos h
      refine .cons pos a rest ?_ (ih (pos + 1) ?_)
      · rw [Source.ofList, ← Nat.add_zero pos, ← List.getElem?_drop, h]
        rfl
      · rw [← List.drop_drop, h]
        rfl
  exact hdrop items 0 rfl

end Reads
