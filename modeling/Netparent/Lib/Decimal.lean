/-
  Decimal numerals of integers. `text` writes a minus sign when negative and no padding; `parse`
  reads a sign or none and at least one digit, to the end, and gives back what was written.
-/
import Mathlib

namespace Decimal

/-- The decimal text of an integer. -/
def text (n : Int) : List Char :=
  if n < 0 then '-' :: Nat.toDigits 10 n.natAbs else Nat.toDigits 10 n.natAbs

theorem text_neg {n : Int} (h : n < 0) : text n = '-' :: Nat.toDigits 10 n.natAbs := if_pos h

theorem text_nonneg {n : Int} (h : 0 ≤ n) : text n = Nat.toDigits 10 n.natAbs :=
  if_neg (by omega)

def digits : List Char := ['0', '1', '2', '3', '4', '5', '6', '7', '8', '9']

/-- A decimal digit, by its code. -/
theorem mem_digits_of_isDigit {c : Char} (h : c.isDigit = true) : c ∈ digits := by
  have hc : 48 ≤ c.toNat ∧ c.toNat ≤ 57 := by
    simpa [Char.isDigit, UInt32.le_iff_toNat_le] using h
  rw [← Char.ofNat_toNat c]
  obtain ⟨h1, h2⟩ := hc
  generalize c.toNat = n at h1 h2
  interval_cases n <;> decide

theorem mem_toDigits {n : Nat} {c : Char} (h : c ∈ Nat.toDigits 10 n) : c ∈ digits :=
  mem_digits_of_isDigit (Nat.isDigit_of_mem_toDigits (by decide) (by decide) h)

theorem mem_text {n : Int} {c : Char} (h : c ∈ text n) : c = '-' ∨ c ∈ digits := by
  unfold text at h
  split at h
  · exact (List.mem_cons.mp h).imp_right mem_toDigits
  · exact Or.inr (mem_toDigits h)

theorem text_length {n : Int} {k : Nat} (hk : 0 < k) (h : n.natAbs < 10 ^ k) :
    (text n).length ≤ k + 1 := by
  have hlen := (Nat.length_toDigits_le_iff (by decide : 1 < 10) hk).mpr h
  unfold text
  split
  · rw [List.length_cons]
    omega
  · omega

/-- Reads digits, all of the text and at least one. -/
def parseDigits (ds : List Char) : Option Int :=
  if ds ≠ [] ∧ ds.all Char.isDigit = true then some (Nat.ofDigitChars 10 ds 0 : Nat) else none

/-- Reads a sign or none, and digits. -/
def parse : List Char → Option Int
  | [] => none
  | c :: cs =>
      if c = '-' then (parseDigits cs).map Neg.neg
      else if c = '+' then parseDigits cs
      else parseDigits (c :: cs)

theorem parseDigits_toDigits (n : Nat) : parseDigits (Nat.toDigits 10 n) = some (n : Int) := by
  have hall : (Nat.toDigits 10 n).all Char.isDigit = true := List.all_eq_true.mpr fun c hc =>
    Nat.isDigit_of_mem_toDigits (by decide) (by decide) hc
  rw [parseDigits, if_pos ⟨Nat.toDigits_ne_nil, hall⟩, Nat.ofDigitChars_ten_toDigits]

theorem parse_text (n : Int) : parse (text n) = some n := by
  by_cases hneg : n < 0
  · rw [text_neg hneg, parse, if_pos rfl, parseDigits_toDigits, Option.map_some,
      show -(n.natAbs : Int) = n by omega]
  · obtain ⟨d, ds, hds⟩ := List.exists_cons_of_ne_nil (Nat.toDigits_ne_nil (b := 10) (n := n.natAbs))
    have hall : ∀ d ∈ digits, d ≠ '-' ∧ d ≠ '+' := by simp [digits]
    obtain ⟨hminus, hplus⟩ := hall d (mem_toDigits (hds ▸ List.mem_cons_self))
    rw [text_nonneg (by omega), hds, parse, if_neg hminus, if_neg hplus, ← hds, parseDigits_toDigits,
      show (n.natAbs : Int) = n by omega]

theorem mem_of_parseDigits {ds : List Char} {n : Int} (h : parseDigits ds = some n) {c : Char}
    (hc : c ∈ ds) : c.isDigit = true := by
  unfold parseDigits at h
  split at h
  · next hall => exact List.all_eq_true.mp hall.2 c hc
  · cases h

/-- What is read consists of digits, behind at most a sign. -/
theorem mem_of_parse {s : List Char} {n : Int} (h : parse s = some n) {c : Char} (hc : c ∈ s) :
    c = '-' ∨ c = '+' ∨ c.isDigit = true := by
  cases s with
  | nil => cases hc
  | cons d ds =>
    rw [parse] at h
    split at h
    · next hd =>
      obtain ⟨m, hm, _⟩ := Option.map_eq_some_iff.mp h
      exact (List.mem_cons.mp hc).imp (fun he => he.trans hd) fun hc => Or.inr (mem_of_parseDigits hm hc)
    · split at h
      · next hd =>
        exact Or.inr ((List.mem_cons.mp hc).imp (fun he => he.trans hd) (mem_of_parseDigits h))
      · exact Or.inr (Or.inr (mem_of_parseDigits h hc))

end Decimal
