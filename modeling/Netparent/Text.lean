/-
  Byte strings of the two programs: the C character classes and string functions the
  daemon calls, on the content of a C string (its terminating NUL left out).

  A `Char` stands for one byte: the daemon and the web app both look at bytes only, and
  every character either of them tests for is ASCII.
-/
import Mathlib

namespace Netparent

/-- The content of a C or Go string, one `Char` per byte. -/
abbrev Str := List Char

/-- Under a name of its own, for deciding membership in a list of strings. -/
instance Str.lawfulBEq : LawfulBEq Str := inferInstance

/-! ## Character classes (C locale) -/

/-- The digits `tolower` leaves alone. -/
def lowerHexDigits : Str :=
  ['0', '1', '2', '3', '4', '5', '6', '7', '8', '9', 'a', 'b', 'c', 'd', 'e', 'f']

def hexDigits : Str := lowerHexDigits ++ ['A', 'B', 'C', 'D', 'E', 'F']

def isxdigit (c : Char) : Bool := hexDigits.contains c

def isLowerHex (c : Char) : Bool := lowerHexDigits.contains c

def isdigit (c : Char) : Bool := ['0', '1', '2', '3', '4', '5', '6', '7', '8', '9'].contains c

/-- Space, tab, newline, vertical tab, form feed, carriage return. -/
def isspace (c : Char) : Bool := [' ', '\t', '\n', '\x0b', '\x0c', '\r'].contains c

def tolower (c : Char) : Char := if 'A' ≤ c ∧ c ≤ 'Z' then Char.ofNat (c.toNat + 32) else c

theorem isxdigit_iff_mem {c : Char} : isxdigit c = true ↔ c ∈ hexDigits :=
  List.contains_iff_mem

theorem isLowerHex_iff_mem {c : Char} : isLowerHex c = true ↔ c ∈ lowerHexDigits :=
  List.contains_iff_mem

theorem isLowerHex_tolower {c : Char} (h : isxdigit c = true) :
    isLowerHex (tolower c) = true := by
  have hall : ∀ d ∈ hexDigits, isLowerHex (tolower d) = true := by
    simp [hexDigits, lowerHexDigits, isLowerHex, tolower]
  exact hall c (isxdigit_iff_mem.mp h)

theorem isxdigit_of_isLowerHex {c : Char} (h : isLowerHex c = true) : isxdigit c = true := by
  have hall : ∀ d ∈ lowerHexDigits, isxdigit d = true := by
    simp [hexDigits, lowerHexDigits, isxdigit]
  exact hall c (isLowerHex_iff_mem.mp h)

theorem tolower_of_isLowerHex {c : Char} (h : isLowerHex c = true) : tolower c = c := by
  have hall : ∀ d ∈ lowerHexDigits, tolower d = d := by
    simp [lowerHexDigits, tolower]
  exact hall c (isLowerHex_iff_mem.mp h)

/-! ## Strings -/

/-- What a C function sees of a buffer: everything before the first NUL. -/
def cstr (s : Str) : Str := s.takeWhile (· != '\x00')

/-- `snprintf` into a buffer of `size` bytes keeps the first `size - 1` of the text. -/
def snprintf (size : Nat) (text : Str) : Str := text.take (size - 1)

/-- The sign of `strcmp`'s result on two C strings. -/
def strcmp : Str → Str → Int
  | [], [] => 0
  | [], _ :: _ => -1
  | _ :: _, [] => 1
  | a :: as, b :: bs => if a = b then strcmp as bs else (a.toNat : Int) - (b.toNat : Int)

theorem char_toNat_lt {a b : Char} : a.toNat < b.toNat ↔ a < b := Iff.rfl

theorem strcmp_eq_zero {a b : Str} : strcmp a b = 0 ↔ a = b := by
  induction a, b using strcmp.induct with
  | case1 => simp [strcmp]
  | case2 b bs => simp [strcmp]
  | case3 a as => simp [strcmp]
  | case4 a as bs ih => simp [strcmp, ih]
  | case5 a as b bs hne =>
    have hn : a.toNat ≠ b.toNat := fun h => hne (Char.toNat_inj.mp h)
    have hs : strcmp (a :: as) (b :: bs) = (a.toNat : Int) - (b.toNat : Int) := if_neg hne
    rw [hs]
    simp only [List.cons.injEq, hne, false_and, iff_false]
    omega

/-- `strcmp` orders C strings lexicographically by byte. -/
theorem strcmp_neg {a b : Str} : strcmp a b < 0 ↔ a < b := by
  induction a, b using strcmp.induct with
  | case1 => simp [strcmp]
  | case2 b bs => simp [strcmp]
  | case3 a as => simp [strcmp]
  | case4 a as bs ih => simp [strcmp, ih]
  | case5 a as b bs hne =>
    have hs : strcmp (a :: as) (b :: bs) = (a.toNat : Int) - (b.toNat : Int) := if_neg hne
    have hlt : a :: as < b :: bs ↔ a.toNat < b.toNat := by
      simp [List.cons_lt_cons_iff, hne, char_toNat_lt]
    rw [hs, hlt]
    omega

/-! ## Reading a stream by lines -/

/-- One `fgets` into a buffer of `size` bytes: up to `size - 1` bytes, stopping after a
    newline, and what is left of the stream. `none` at end of file. -/
def fgets : (size : Nat) → Str → Option (Str × Str)
  | 0, _ => none
  | 1, s => some ([], s)
  | _ + 2, [] => none
  | n + 2, c :: cs =>
      if c = '\n' then some ([c], cs)
      else match fgets (n + 1) cs with
        | some (piece, rest) => some (c :: piece, rest)
        | none => some ([c], cs)

/-- `fgets` only splits the stream. -/
theorem fgets_append {size : Nat} {s piece rest : Str} (h : fgets size s = some (piece, rest)) :
    piece ++ rest = s := by
  induction size, s using fgets.induct generalizing piece rest with
  | case1 s => simp [fgets] at h
  | case2 s => simp [fgets] at h; simp [h.1, h.2]
  | case3 n => simp [fgets] at h
  | case4 n cs => simp [fgets] at h; simp [← h.1, h.2]
  | case5 n c cs hc p r hr ih =>
    simp only [fgets, if_neg hc, hr, Option.some.injEq, Prod.mk.injEq] at h
    rw [← h.1, ← h.2, List.cons_append, ih hr]
  | case6 n c cs hc hr ih =>
    simp only [fgets, if_neg hc, hr, Option.some.injEq, Prod.mk.injEq] at h
    rw [← h.1, ← h.2]; rfl

/-- A read with room for at least one byte makes progress. -/
theorem fgets_progress {n : Nat} {s piece rest : Str}
    (h : fgets (n + 2) s = some (piece, rest)) : rest.length < s.length := by
  have happ := fgets_append h
  cases s with
  | nil => simp [fgets] at h
  | cons c cs =>
    have hp : piece ≠ [] := by
      simp only [fgets] at h
      split at h
      · simp at h; simp [← h.1]
      · split at h <;> (simp at h; simp [← h.1])
    have hl := congrArg List.length happ
    have := List.length_pos_iff.mpr hp
    simp only [List.length_append] at hl
    omega

end Netparent
