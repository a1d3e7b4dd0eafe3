/-
  JSON documents as two programs see them: a C program through cJSON's item accessors, and a
  Go program through encoding/json's decoding into typed variables.

  Strings are lists of bytes, one `Char` each. Decoding follows encoding/json: a `null` leaves
  a plain variable as it was and makes a pointer or slice nil, an object sets the fields its
  keys name (case-folded; a later key overwrites), any other mismatch of types is an error.
  `none` is the error, after which the caller does not look at the variable.
-/
import Mathlib

/-- A JSON document. `int` is a number written without fraction or exponent. -/
inductive Json where
  | null
  | bool (b : Bool)
  | int (n : Int)
  | float (text : List Char)
  | str (s : List Char)
  | arr (items : List Json)
  | obj (members : List (List Char × Json))

namespace Json

/-! ## cJSON -/

/-- A string of a cJSON item as C code reads it: up to its first NUL. -/
def cText (s : List Char) : List Char := s.takeWhile (· != '\x00')

/-- `cJSON_GetObjectItemCaseSensitive`: the first member with that name. Items of an array
    have no name, so nothing is found there. -/
def getObjectItemCaseSensitive (j : Json) (name : List Char) : Option Json :=
  match j with
  | .obj members => (members.find? fun m => cText m.1 == name).map Prod.snd
  | _ => none

/-- `cJSON_IsString(j) ? j->valuestring : NULL`. -/
def valuestring : Option Json → Option (List Char)
  | some (.str s) => some (cText s)
  | _ => none

/-! ## encoding/json -/

def upperByte (c : Char) : Char := if 'a' ≤ c ∧ c ≤ 'z' then Char.ofNat (c.toNat - 32) else c

/-- `foldName`: upper case, with the two runes outside ASCII that fold to an ASCII letter
    (long s, Kelvin sign) in their UTF-8 bytes. -/
def foldName : List Char → List Char
  | '\xc5' :: '\xbf' :: cs => 'S' :: foldName cs
  | '\xe2' :: '\x84' :: '\xaa' :: cs => 'K' :: foldName cs
  | c :: cs => upperByte c :: foldName cs
  | [] => []

/-- An object key names a struct field with this `json` tag. -/
def isField (name key : List Char) : Bool := foldName key == foldName name

def decodeBool (cur : Bool) : Json → Option Bool
  | .null => some cur
  | .bool b => some b
  | _ => none

def decodeString (cur : List Char) : Json → Option (List Char)
  | .null => some cur
  | .str s => some s
  | _ => none

/-- The numbers an `int64` variable takes. -/
def FitsInt64 (n : Int) : Prop := -2 ^ 63 ≤ n ∧ n < 2 ^ 63

instance (n : Int) : Decidable (FitsInt64 n) := inferInstanceAs (Decidable (_ ∧ _))

def decodeInt64 (cur : Int) : Json → Option Int
  | .null => some cur
  | .int n => if FitsInt64 n then some n else none
  | _ => none

variable {α : Type*}

/-- Into a pointer: `null` makes it nil, anything else decodes into what it points to. -/
def decodePtr (dec : α → Json → Option α) (zero : α) (cur : Option α) : Json → Option (Option α)
  | .null => some none
  | j => (dec (cur.getD zero) j).map some

/-- Array elements decode into the slice's old elements as far as there are any. -/
def decodeElems (dec : α → Json → Option α) (zero : α) : List α → List Json → Option (List α)
  | _, [] => some []
  | [], j :: js => (dec zero j).bind fun a => (decodeElems dec zero [] js).map (a :: ·)
  | p :: ps, j :: js => (dec p j).bind fun a => (decodeElems dec zero ps js).map (a :: ·)

/-- The elements of a slice, and what the array behind it still holds beyond them: a shorter array leaves
    elements there, and a longer one decodes into them. After an empty one the slice is a new one. -/
def decodeSlice (dec : α → Json → Option α) (zero : α) (cur stale : List α) :
    Json → Option (List α × List α)
  | .null => some ([], [])
  | .arr items => (decodeElems dec zero (cur ++ stale) items).map fun elems =>
      (elems, if items.isEmpty then [] else (cur ++ stale).drop items.length)
  | _ => none

/-- Set the fields an object's members name, in order. -/
def decodeMembers (set : α → List Char → Json → Option α) : α → List (List Char × Json) → Option α
  | cur, [] => some cur
  | cur, (key, j) :: ms => (set cur key j).bind fun next => decodeMembers set next ms

def decodeStruct (set : α → List Char → Json → Option α) (cur : α) : Json → Option α
  | .null => some cur
  | .obj members => decodeMembers set cur members
  | _ => none

/-- A fresh slice of elements that decode independently. -/
theorem decodeElems_map {β : Type*} {dec : α → Json → Option α} {zero : α} {enc : β → Json}
    {f : β → α} {xs : List β} (h : ∀ x ∈ xs, dec zero (enc x) = some (f x)) :
    decodeElems dec zero [] (xs.map enc) = some (xs.map f) := by
  induction xs with
  | nil => rfl
  | cons x xs ih =>
    rw [List.map_cons, decodeElems, h x (by simp), Option.bind_some,
      ih fun y hy => h y (by simp [hy])]
    rfl

/-- One element that does not decode spoils the slice. -/
theorem decodeElems_eq_none {β : Type*} {dec : α → Json → Option α} {zero : α} {enc : β → Json}
    {xs : List β} {x : β} (hx : x ∈ xs) (h : dec zero (enc x) = none) :
    decodeElems dec zero [] (xs.map enc) = none := by
  induction xs with
  | nil => cases hx
  | cons y ys ih =>
    rw [List.map_cons, decodeElems]
    rcases List.mem_cons.mp hx with rfl | hx
    · rw [h]; rfl
    · rw [ih hx]
      cases dec zero (enc y) <;> rfl

end Json
