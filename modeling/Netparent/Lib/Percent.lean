/-
  Percent-encoding. A `Char` below 256 stands for one byte.

  `decode` takes every `%` for the beginning of an encoded byte and fails when two hex digits do not
  follow it. What `encode` writes decodes to what was encoded, whichever bytes are kept, as long as `%`
  is not (`decode_encode`).
-/
import Mathlib

namespace Percent

def digits : List Char := "0123456789ABCDEF".toList

/-- The digit for four bits. -/
def digit (v : Nat) : Char := digits.getD v '0'

/-- The four bits of a digit, in either case. -/
def value (c : Char) : Option Nat :=
  if '0' ≤ c ∧ c ≤ '9' then some (c.toNat - 48)
  else if 'A' ≤ c ∧ c ≤ 'F' then some (c.toNat - 55)
  else if 'a' ≤ c ∧ c ≤ 'f' then some (c.toNat - 87)
  else none

def encodeByte (c : Char) : List Char := ['%', digit (c.toNat / 16), digit (c.toNat % 16)]

def encode (keep : Char → Bool) (text : List Char) : List Char :=
  text.flatMap fun c => if keep c then [c] else encodeByte c

def decode : List Char → Option (List Char)
  | [] => some []
  | '%' :: a :: b :: rest =>
      match value a, value b with
      | some hi, some lo => (decode rest).map (Char.ofNat (hi * 16 + lo) :: ·)
      | _, _ => none
  | '%' :: _ => none
  | c :: rest => (decode rest).map (c :: ·)

theorem decode_plain {c : Char} (h : c ≠ '%') (rest : List Char) :
    decode (c :: rest) = (decode rest).map (c :: ·) := by
  rw [decode]
  · rintro a b t he -
    exact h he
  · exact h

theorem digit_spec : ∀ v : Fin 16, value (digit v) = some v.val ∧ digit v ∈ digits := by
  decide +kernel

theorem digit_value {v : Nat} (h : v < 16) : value (digit v) = some v := (digit_spec ⟨v, h⟩).1

theorem digit_mem {v : Nat} (h : v < 16) : digit v ∈ digits := (digit_spec ⟨v, h⟩).2

theorem decode_encodeByte {c : Char} (h : c.toNat < 256) (rest : List Char) :
    decode (encodeByte c ++ rest) = (decode rest).map (c :: ·) := by
  have hcode : c.toNat / 16 * 16 + c.toNat % 16 = c.toNat := by omega
  change decode ('%' :: digit (c.toNat / 16) :: digit (c.toNat % 16) :: rest) = _
  rw [decode, digit_value (by omega), digit_value (by omega)]
  dsimp only
  rw [hcode, Char.ofNat_toNat]

/-- Text that decodes is decoded first, whatever follows it. -/
theorem decode_append {a x : List Char} (h : decode a = some x) (b : List Char) :
    decode (a ++ b) = (decode b).map (x ++ ·) := by
  induction a using decode.induct generalizing x with
  | case1 =>
    cases h
    rw [List.nil_append]
    cases decode b <;> rfl
  | case2 hi' lo' rest hi lo hhi hlo ih =>
    rw [decode, hhi, hlo] at h
    obtain ⟨y, hy, rfl⟩ := Option.map_eq_some_iff.mp h
    change decode ('%' :: hi' :: lo' :: (rest ++ b)) = _
    rw [decode, hhi, hlo]
    dsimp only
    rw [ih hy, Option.map_map]
    rfl
  | case3 hi' lo' rest hno =>
    rw [decode] at h
    split at h
    · next hi lo hhi hlo => exact absurd hlo (hno hi lo hhi)
    · cases h
  | case4 rest hno =>
    rw [decode] at h
    · cases h
    · exact hno
  | case5 c rest hno hne ih =>
    have hc : c ≠ '%' := hne
    rw [decode_plain hc] at h
    obtain ⟨y, hy, rfl⟩ := Option.map_eq_some_iff.mp h
    rw [List.cons_append, decode_plain hc, ih hy, Option.map_map]
    rfl

section Encode

variable {keep : Char → Bool}

theorem encode_cons (c : Char) (text : List Char) :
    encode keep (c :: text) = (if keep c then [c] else encodeByte c) ++ encode keep text := rfl

/-- The characters of an encoded text are kept ones, `%` and digits. -/
theorem mem_encode {text : List Char} (hb : ∀ c ∈ text, c.toNat < 256) {d : Char}
    (hd : d ∈ encode keep text) : (keep d = true ∧ d ∈ text) ∨ d = '%' ∨ d ∈ digits := by
  obtain ⟨c, hc, hdc⟩ := List.mem_flatMap.mp hd
  split at hdc
  · next hk =>
    obtain rfl := List.mem_singleton.mp hdc
    exact Or.inl ⟨hk, hc⟩
  · have hsmall := hb c hc
    simp only [encodeByte, List.mem_cons, List.not_mem_nil, or_false] at hdc
    rcases hdc with rfl | rfl | rfl
    · exact Or.inr (Or.inl rfl)
    · exact Or.inr (Or.inr (digit_mem (by omega)))
    · exact Or.inr (Or.inr (digit_mem (by omega)))

theorem encode_ne_nil {text : List Char} (h : text ≠ []) : encode keep text ≠ [] := by
  obtain ⟨c, cs, rfl⟩ := List.exists_cons_of_ne_nil h
  rw [encode_cons]
  split <;> nofun

/-- **Round trip.** -/
theorem decode_encode (hkeep : keep '%' = false) {text : List Char} (h : ∀ c ∈ text, c.toNat < 256) :
    decode (encode keep text) = some text := by
  induction text with
  | nil => rfl
  | cons c cs ih =>
    obtain ⟨hc, hcs⟩ := List.forall_mem_cons.mp h
    rw [encode_cons]
    split
    · next hk =>
      have hne : c ≠ '%' := by
        rintro rfl
        rw [hkeep] at hk
        cases hk
      rw [List.singleton_append, decode_plain hne, ih hcs]
      rfl
    · rw [decode_encodeByte hc, ih hcs]
      rfl

example : decode (encode (fun c => c.isAlphanum) "a b/%".toList) = some "a b/%".toList := by decide

end Encode

end Percent
