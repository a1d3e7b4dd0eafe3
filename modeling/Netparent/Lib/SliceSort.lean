/-
  Comparison sorts that need not be stable.

  `IsSort less xs out` is all that such a sort promises: `out` has the elements of `xs`, and none
  of them is less than one before it. When the comparison tells the elements apart there is one
  such list (`unique`), and a property of pairs holds along the list exactly when it holds of the
  pairs the comparison orders, provided that ties have it (`pairwise_iff`).
-/
import Mathlib

namespace SliceSort

variable {α : Type*} {less : α → α → Bool} {xs ys out out' : List α}

structure IsSort (less : α → α → Bool) (xs out : List α) : Prop where
  perm : out.Perm xs
  ordered : out.Pairwise fun a b => less b a = false

theorem IsSort.mem_iff (h : IsSort less xs out) {a : α} : a ∈ out ↔ a ∈ xs := h.perm.mem_iff

/-- The order of the input does not matter. -/
theorem IsSort.of_perm (h : IsSort less xs out) (hxy : xs.Perm ys) : IsSort less ys out :=
  ⟨h.perm.trans hxy, h.ordered⟩

/-- A comparison with no ties among the elements leaves one result. -/
theorem IsSort.unique (htie : ∀ a ∈ xs, ∀ b ∈ xs, less a b = false → less b a = false → a = b)
    (h : IsSort less xs out) (h' : IsSort less xs out') : out = out' :=
  (h.perm.trans h'.perm.symm).eq_of_pairwise
    (fun a b ha hb hab hba => htie a (h.mem_iff.mp ha) b (h'.mem_iff.mp hb) hba hab)
    h.ordered h'.ordered

/-- A strict weak order has a sort. -/
theorem exists_isSort (hasymm : ∀ a b, less a b = true → less b a = false)
    (htrans : ∀ a b c, less b a = false → less c b = false → less c a = false) (xs : List α) :
    ∃ out, IsSort less xs out := by
  refine ⟨xs.mergeSort fun a b => !less b a, List.mergeSort_perm _ _, ?_⟩
  have hsorted : (xs.mergeSort fun a b => !less b a).Pairwise fun a b => (!less b a) = true := by
    refine List.pairwise_mergeSort (fun a b c hab hbc => ?_) (fun a b => ?_) xs
    · rw [Bool.not_eq_true'] at hab hbc ⊢
      exact htrans a b c hab hbc
    · cases hba : less b a with
      | false => simp
      | true => simp [hasymm b a hba]
  exact hsorted.imp fun hab => by simpa using hab

/-- A property of ties holds all along the list exactly when it holds of what the comparison
    orders. -/
theorem IsSort.pairwise_iff {P : α → α → Prop} (hirrefl : ∀ a, less a a = false)
    (htie : ∀ a b, less a b = false → less b a = false → P a b) (h : IsSort less xs out) :
    out.Pairwise P ↔ ∀ a ∈ xs, ∀ b ∈ xs, less a b = true → P a b := by
  constructor
  · intro hP a ha b hb hlt
    have hne : a ≠ b := by
      rintro rfl
      rw [hirrefl] at hlt
      cases hlt
    have hboth : out.Pairwise fun x y =>
        (P x y ∧ less y x = false) ∨ (P y x ∧ less x y = false) :=
      (hP.and h.ordered).imp Or.inl
    have : Std.Symm fun x y =>
        (P x y ∧ less y x = false) ∨ (P y x ∧ less x y = false) := ⟨fun _ _ => Or.symm⟩
    -- one of the two stands first, and it is not `b`, which is not less than `a`
    rcases hboth.forall (h.mem_iff.mpr ha) (h.mem_iff.mpr hb) hne with hab | hba
    · exact hab.1
    · rw [hba.2] at hlt
      cases hlt
  · intro hP
    refine h.ordered.imp_of_mem fun {a b} ha hb hba => ?_
    cases hab : less a b with
    | false => exact htie a b hab hba
    | true => exact hP a (h.mem_iff.mp ha) b (h.mem_iff.mp hb) hab

end SliceSort
