/-
  Registers: observations of a state that some operations overwrite and the others leave
  alone. After a run such an observation holds what the last operation that wrote it put
  there, or its initial value when none did.

  Also the two forms in which the last write is used: it is unchanged when the tail of the
  run writes nothing, and it is the tail's when the tail ends in a write.
-/
import Mathlib

namespace Register

variable {σ ι β : Type*}

/-- The value written last, or the initial one. -/
def final (touch : ι → Option β) (init : β) (ops : List ι) : β :=
  ((ops.filterMap touch).getLast?).getD init

@[simp] theorem final_nil (touch : ι → Option β) (init : β) : final touch init [] = init := rfl

theorem final_cons (touch : ι → Option β) (init : β) (i : ι) (ops : List ι) :
    final touch init (i :: ops) = final touch ((touch i).getD init) ops := by
  unfold final
  cases ht : touch i with
  | none => rw [List.filterMap_cons_none ht]; rfl
  | some b =>
    rw [List.filterMap_cons_some ht, List.getLast?_cons]
    cases (ops.filterMap touch).getLast? <;> rfl

theorem final_append (touch : ι → Option β) (init : β) (xs ys : List ι) :
    final touch init (xs ++ ys) = final touch (final touch init xs) ys := by
  induction xs generalizing init with
  | nil => rfl
  | cons x xs ih => rw [List.cons_append, final_cons, final_cons, ih]

theorem final_of_untouched {touch : ι → Option β} {ops : List ι}
    (h : ∀ i ∈ ops, touch i = none) (init : β) : final touch init ops = init := by
  unfold final
  rw [List.filterMap_eq_nil_iff.mpr h]
  rfl

theorem final_congr {f g : ι → Option β} {ops : List ι} (h : ∀ i ∈ ops, f i = g i) (init : β) :
    final f init ops = final g init ops := by
  unfold final
  rw [List.filterMap_congr h]

theorem final_map {ι' : Type*} (g : ι' → ι) (touch : ι → Option β) (init : β) (ops : List ι') :
    final touch init (ops.map g) = final (fun i => touch (g i)) init ops := by
  unfold final
  rw [List.filterMap_map]
  rfl

/-- The last write among the operations a test keeps. -/
theorem final_filter (keep : ι → Bool) (touch : ι → Option β) (init : β) (ops : List ι) :
    final touch init (ops.filter keep) =
      final (fun i => if keep i then touch i else none) init ops := by
  induction ops generalizing init with
  | nil => rfl
  | cons i ops ih =>
    rw [List.filter_cons, final_cons]
    by_cases hk : keep i = true
    · rw [if_pos hk, if_pos hk, final_cons, ih]
    · rw [if_neg hk, if_neg hk, ih]; rfl

/-- What holds of the initial value and of every value written holds of the last one. -/
theorem final_forall {P : β → Prop} {touch : ι → Option β} {init : β} {ops : List ι}
    (hinit : P init) (hw : ∀ i ∈ ops, ∀ b, touch i = some b → P b) : P (final touch init ops) := by
  induction ops generalizing init with
  | nil => exact hinit
  | cons i ops ih =>
    rw [final_cons]
    refine ih ?_ fun j hj => hw j (List.mem_cons_of_mem _ hj)
    cases ht : touch i with
    | none => exact hinit
    | some b => exact hw i List.mem_cons_self b ht

/-- The run rule: if every step either writes the observation or leaves it alone, a run
    leaves what was written last. -/
theorem obs_foldl {step : σ → ι → σ} (obs : σ → β) {touch : ι → Option β}
    (h : ∀ s i, obs (step s i) = (touch i).getD (obs s)) (s : σ) (ops : List ι) :
    obs (ops.foldl step s) = final touch (obs s) ops := by
  induction ops generalizing s with
  | nil => rfl
  | cons i ops ih => rw [List.foldl_cons, ih, h, final_cons]

/-- The same for a boolean observation: it ends true exactly when the last write was `true`,
    or nothing was written and it began true. -/
theorem final_eq_true_iff (touch : ι → Option Bool) (init : Bool) (ops : List ι) :
    final touch init ops = true ↔
      (ops.filterMap touch).getLast? = some true ∨
        ((ops.filterMap touch).getLast? = none ∧ init = true) := by
  unfold final
  cases (ops.filterMap touch).getLast? <;> simp

end Register
