/-
  Base 64 with the URL alphabet and without padding. A `Char` below 256 stands for one byte.

  `decode` is lenient in two ways: carriage returns and newlines are skipped, and the bits
  of the last letter that belong to no byte may be anything. So several texts decode alike, but
  what `encode` writes decodes to what was encoded (`decode_encode`).
-/
import Mathlib

namespace Base64

def alphabet : List Char :=
  "ABCDEFGHIJKLMNOPQRSTUVWXYZabcdefghijklmnopqrstuvwxyz0123456789-_".toList

/-- The letter for six bits. -/
def letter (v : Nat) : Char := alphabet.getD v 'A'

/-- The six bits of a letter. -/
def value (c : Char) : Option Nat :=
  if c ∈ alphabet then some (alphabet.idxOf c) else none

/-- The bytes in groups of six bits; the last group is filled up with zeros. -/
def sextets : List Char → List Nat
  | a :: b :: c :: rest =>
      a.toNat / 4 :: (a.toNat % 4 * 16 + b.toNat / 16) :: (b.toNat % 16 * 4 + c.toNat / 64) ::
        c.toNat % 64 :: sextets rest
  | [a, b] => [a.toNat / 4, a.toNat % 4 * 16 + b.toNat / 16, b.toNat % 16 * 4]
  | [a] => [a.toNat / 4, a.toNat % 4 * 16]
  | [] => []

/-- The bytes of groups of six bits; one group alone is too little for a byte. -/
def bytes : List Nat → Option (List Char)
  | a :: b :: c :: d :: rest => (bytes rest).map fun tail =>
      Char.ofNat (a * 4 + b / 16) :: Char.ofNat (b % 16 * 16 + c / 4) ::
        Char.ofNat (c % 4 * 64 + d) :: tail
  | [a, b, c] => some [Char.ofNat (a * 4 + b / 16), Char.ofNat (b % 16 * 16 + c / 4)]
  | [a, b] => some [Char.ofNat (a * 4 + b / 16)]
  | [_] => none
  | [] => some []

def encode (text : List Char) : List Char := (sextets text).map letter

/-- The values of the letters; `none` when one is none. -/
def values : List Char → Option (List Nat)
  | [] => some []
  | c :: cs => (value c).bind fun v => (values cs).map (v :: ·)

def decode (text : List Char) : Option (List Char) :=
  (values (text.filter fun c => c != '\r' && c != '\n')).bind bytes

theorem letter_spec : ∀ v : Fin 64, value (letter v) = some v.val ∧ letter v ∈ alphabet := by
  decide +kernel

theorem alphabet_plain {c : Char} (h : c ∈ alphabet) :
    (c != '\r' && c != '\n') = true ∧ c ≠ '.' := by
  have hall : (alphabet.all fun c => (c != '\r' && c != '\n') && c != '.') = true := by
    decide +kernel
  simpa using List.all_eq_true.mp hall c h

theorem sextets_lt {text : List Char} (h : ∀ c ∈ text, c.toNat < 256) :
    ∀ v ∈ sextets text, v < 64 := by
  induction text using sextets.induct with
  | case1 a b c rest ih =>
    have ha := h a (by simp)
    have hb := h b (by simp)
    have hc := h c (by simp)
    have hrest := ih fun x hx => h x (by simp [hx])
    simp only [sextets, List.forall_mem_cons]
    exact ⟨by omega, by omega, by omega, by omega, hrest⟩
  | case2 a b =>
    have ha := h a (by simp)
    have hb := h b (by simp)
    simp only [sextets, List.forall_mem_cons, List.not_mem_nil, false_implies, implies_true, and_true]
    omega
  | case3 a =>
    have ha := h a (by simp)
    simp only [sextets, List.forall_mem_cons, List.not_mem_nil, false_implies, implies_true, and_true]
    omega
  | case4 => exact fun v hv => absurd hv List.not_mem_nil

/-- The groups of some bytes are those bytes again. -/
theorem bytes_sextets {text : List Char} (h : ∀ c ∈ text, c.toNat < 256) :
    bytes (sextets text) = some text := by
  have hback : ∀ {n : Nat} {c : Char}, n = c.toNat → Char.ofNat n = c := fun hn => by
    rw [hn, Char.ofNat_toNat]
  induction text using sextets.induct with
  | case1 a b c rest ih =>
    have ha := h a (by simp)
    have hb := h b (by simp)
    have hc := h c (by simp)
    rw [sextets, bytes, ih fun x hx => h x (by simp [hx]), Option.map_some,
      hback (c := a) (by omega), hback (c := b) (by omega), hback (c := c) (by omega)]
  | case2 a b =>
    have ha := h a (by simp)
    have hb := h b (by simp)
    rw [sextets, bytes, hback (c := a) (by omega), hback (c := b) (by omega)]
  | case3 a =>
    have ha := h a (by simp)
    rw [sextets, bytes, hback (c := a) (by omega)]
  | case4 => rfl

theorem values_letters {vs : List Nat} (h : ∀ v ∈ vs, v < 64) : values (vs.map letter) = some vs := by
  induction vs with
  | nil => rfl
  | cons v vs ih =>
    have hv := (letter_spec ⟨v, h v List.mem_cons_self⟩).1
    rw [List.map_cons, values, hv, Option.bind_some, ih fun x hx => h x (List.mem_cons_of_mem _ hx)]
    rfl

/-- What is written consists of letters of the alphabet. -/
theorem mem_encode {text : List Char} (h : ∀ c ∈ text, c.toNat < 256) {c : Char}
    (hc : c ∈ encode text) : c ∈ alphabet := by
  obtain ⟨v, hv, rfl⟩ := List.mem_map.mp hc
  exact (letter_spec ⟨v, sextets_lt h v hv⟩).2

/-- **Round trip.** -/
theorem decode_encode {text : List Char} (h : ∀ c ∈ text, c.toNat < 256) :
    decode (encode text) = some text := by
  have hkeep : (encode text).filter (fun c => c != '\r' && c != '\n') = encode text :=
    List.filter_eq_self.mpr fun c hc => (alphabet_plain (mem_encode h hc)).1
  rw [decode, hkeep, encode, values_letters (sextets_lt h), Option.bind_some, bytes_sextets h]

end Base64
