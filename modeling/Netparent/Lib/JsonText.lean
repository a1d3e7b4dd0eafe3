/-
  The text of a JSON document, one `Char` a byte.

  `print` writes without blanks, escapes as cJSON does, and integers in decimal. `read` is a reader
  of JSON texts that keeps a number with a fraction or an exponent as its text. It gives back what `print`
  wrote (`read_print`).

  Left out: escapes beyond ASCII, and repair of bytes that are not UTF-8.
-/
import Netparent.Lib.Decimal
import Netparent.Lib.Json
import Netparent.Lib.Percent

namespace Json

/-! ## Writing -/

def lowerDigit (v : Nat) : Char := "0123456789abcdef".toList.getD v '0'

/-- The letters of the short escapes, and the bytes they stand for. -/
def shortEscapes : List (Char × Char) :=
  [('"', '"'), ('\\', '\\'), ('b', '\x08'), ('f', '\x0c'), ('n', '\n'), ('r', '\r'), ('t', '\t')]

def escapeChar (c : Char) : List Char :=
  match shortEscapes.find? fun e => e.2 = c with
  | some e => ['\\', e.1]
  | none =>
      if c.toNat < 32 then ['\\', 'u', '0', '0', lowerDigit (c.toNat / 16), lowerDigit (c.toNat % 16)]
      else [c]

def printString (s : List Char) : List Char := '"' :: s.flatMap escapeChar ++ ['"']

def moreCommas (close : Char) : List (List Char) → List Char
  | [] => [close]
  | t :: ts => ',' :: (t ++ moreCommas close ts)

/-- Texts with commas between them, and `close` behind the last. -/
def commas (close : Char) : List (List Char) → List Char
  | [] => [close]
  | t :: ts => t ++ moreCommas close ts

mutual

def print : Json → List Char
  | .null => "null".toList
  | .bool true => "true".toList
  | .bool false => "false".toList
  | .int n => Decimal.text n
  | .float text => text
  | .str s => printString s
  | .arr items => '[' :: commas ']' (printItems items)
  | .obj members => '\x7b' :: commas '\x7d' (printMembers members)

def printItems : List Json → List (List Char)
  | [] => []
  | j :: js => print j :: printItems js

def printMembers : List (List Char × Json) → List (List Char)
  | [] => []
  | (key, j) :: ms => (printString key ++ ':' :: print j) :: printMembers ms

end

mutual

/-- All numbers are integers. -/
def isWholeNumbered : Json → Bool
  | .float _ => false
  | .arr items => allWhole items
  | .obj members => allWholeMembers members
  | _ => true

def allWhole : List Json → Bool
  | [] => true
  | j :: js => isWholeNumbered j && allWhole js

def allWholeMembers : List (List Char × Json) → Bool
  | [] => true
  | (_, j) :: ms => isWholeNumbered j && allWholeMembers ms

end

def printMember (m : List Char × Json) : List Char := printString m.1 ++ ':' :: print m.2

theorem printItems_eq (js : List Json) : printItems js = js.map print := by
  induction js with
  | nil => rfl
  | cons j js ih => rw [printItems, ih, List.map_cons]

theorem printMembers_eq (ms : List (List Char × Json)) : printMembers ms = ms.map printMember := by
  induction ms with
  | nil => rfl
  | cons m ms ih => rw [printMembers, ih, List.map_cons, printMember]

theorem allWhole_iff {js : List Json} :
    allWhole js = true ↔ ∀ j ∈ js, j.isWholeNumbered = true := by
  induction js with
  | nil => simp [allWhole]
  | cons j js ih => rw [allWhole, Bool.and_eq_true, ih, List.forall_mem_cons]

theorem allWholeMembers_iff {ms : List (List Char × Json)} :
    allWholeMembers ms = true ↔ ∀ m ∈ ms, m.2.isWholeNumbered = true := by
  induction ms with
  | nil => simp [allWholeMembers]
  | cons m ms ih => rw [allWholeMembers, Bool.and_eq_true, ih, List.forall_mem_cons]

/-! ## Reading -/

/-- Takes something off the front of a text. -/
abbrev Reader (α : Type) := List Char → Option (α × List Char)

def isSpace (c : Char) : Bool := c = ' ' || c = '\t' || c = '\n' || c = '\r'

def skipSpace (cs : List Char) : List Char := cs.dropWhile isSpace

/-- The rest of a string, behind its opening quote. -/
def readString : Reader (List Char)
  | [] => none
  | '"' :: cs => some ([], cs)
  | '\\' :: 'u' :: '0' :: '0' :: a :: b :: cs =>
      match Percent.value a, Percent.value b with
      | some hi, some lo =>
          if hi < 8 then (readString cs).map fun p => (Char.ofNat (hi * 16 + lo) :: p.1, p.2) else none
      | _, _ => none
  | '\\' :: e :: cs =>
      match ('/', '/') :: shortEscapes |>.find? fun x => x.1 = e with
      | some x => (readString cs).map fun p => (x.2 :: p.1, p.2)
      | none => none
  | c :: cs => if c.toNat < 32 then none else (readString cs).map fun p => (c :: p.1, p.2)

def isWordChar (c : Char) : Bool := c.isAlphanum || c = '+' || c = '-' || c = '.'

/-- Digits, without a zero in front of others. -/
def isWhole (s : List Char) : Bool :=
  s ≠ [] && s.all Char.isDigit && (s.head? ≠ some '0' || s.length = 1)

def unsigned (s : List Char) : List Char := if s.head? = some '-' then s.tail else s

def isExponent (s : List Char) : Bool :=
  let ds := if s.head? = some '-' ∨ s.head? = some '+' then s.tail else s
  ds ≠ [] && ds.all Char.isDigit

/-- A number with a fraction or an exponent, or both. -/
def isFloat (s : List Char) : Bool :=
  let notExp := fun c : Char => c ≠ 'e' && c ≠ 'E'
  let mantissa := (unsigned s).takeWhile notExp
  let fraction := (mantissa.dropWhile (· ≠ '.')).tail
  isWhole (mantissa.takeWhile (· ≠ '.')) &&
    (if '.' ∈ mantissa then fraction ≠ [] && fraction.all Char.isDigit else true) &&
    (if s.any (fun c => !notExp c) then isExponent (s.dropWhile notExp).tail else '.' ∈ mantissa)

/-- A literal or a number. -/
def wordValue (w : List Char) : Option Json :=
  if w = "null".toList then some .null
  else if w = "true".toList then some (.bool true)
  else if w = "false".toList then some (.bool false)
  else if isWhole (unsigned w) then (Decimal.parse w).map .int
  else if isFloat w then some (.float w)
  else none

def readWord : Reader Json := fun cs =>
  (wordValue (cs.takeWhile isWordChar)).map fun j => (j, cs.dropWhile isWordChar)

/-- Items with commas between them, up to `close`. -/
def readMore {α : Type} (item : Reader α) (close : Char) : Nat → Reader (List α)
  | 0, _ => none
  | n + 1, cs => (item cs).bind fun p => match skipSpace p.2 with
    | [] => none
    | c :: rest =>
        if c = close then some ([p.1], rest)
        else if c = ',' then (readMore item close n rest).map fun q => (p.1 :: q.1, q.2)
        else none

def readItems {α : Type} (item : Reader α) (close : Char) (n : Nat) : Reader (List α) := fun cs =>
  match skipSpace cs with
  | [] => none
  | c :: rest => if c = close then some ([], rest) else readMore item close n (c :: rest)

/-- What follows a key. -/
def readKeyed (value : Reader Json) (key : List Char) : Reader (List Char × Json) := fun cs =>
  match skipSpace cs with
  | ':' :: rest => (value rest).map fun p => ((key, p.1), p.2)
  | _ => none

def readMember (value : Reader Json) : Reader (List Char × Json) := fun cs =>
  match skipSpace cs with
  | '"' :: rest => (readString rest).bind fun k => readKeyed value k.1 k.2
  | _ => none

/-- A value, with at most so many brackets and items inside. -/
def readValue : Nat → Reader Json
  | 0, _ => none
  | n + 1, cs => match skipSpace cs with
    | '"' :: rest => (readString rest).map fun p => (.str p.1, p.2)
    | '[' :: rest => (readItems (readValue n) ']' n rest).map fun p => (.arr p.1, p.2)
    | '\x7b' :: rest => (readItems (readMember (readValue n)) '\x7d' n rest).map fun p => (.obj p.1, p.2)
    | cs => readWord cs

/-- Reads a document, to the end of the text. -/
def read (cs : List Char) : Option Json :=
  match readValue (cs.length + 1) cs with
  | some (j, rest) => if skipSpace rest = [] then some j else none
  | none => none

/-! ## What was written is read back -/

theorem skipSpace_cons {c : Char} (h : isSpace c = false) (cs : List Char) :
    skipSpace (c :: cs) = c :: cs :=
  List.dropWhile_cons_of_neg (by rw [h]; exact Bool.false_ne_true)

/-- A word is not continued by what follows it. -/
def Ends (rest : List Char) : Prop := ∀ c ∈ rest.head?, isWordChar c = false

theorem ends_cons {c : Char} (h : isWordChar c = false) (cs : List Char) : Ends (c :: cs) := by
  intro d hd
  rw [← Option.some.inj hd]
  exact h

theorem readWord_append {w rest : List Char} (hw : ∀ c ∈ w, isWordChar c = true) (hrest : Ends rest) :
    readWord (w ++ rest) = (wordValue w).map fun j => (j, rest) := by
  have htake : (w ++ rest).takeWhile isWordChar = w ∧ (w ++ rest).dropWhile isWordChar = rest := by
    rw [List.takeWhile_append_of_pos hw, List.dropWhile_append_of_pos hw]
    cases rest with
    | nil => simp
    | cons c cs => simp [hrest c rfl]
  rw [readWord, htake.1, htake.2]

theorem readString_escapeChar (c : Char) (rest : List Char) :
    readString (escapeChar c ++ rest) = (readString rest).map fun p => (c :: p.1, p.2) := by
  by_cases hsmall : c.toNat < 32
  · rw [← Char.ofNat_toNat c]
    generalize c.toNat = n at hsmall
    interval_cases n <;> rfl
  · by_cases hquote : c = '"'
    · subst hquote
      rfl
    by_cases hback : c = '\\'
    · subst hback
      rfl
    have hplain : escapeChar c = [c] := by
      have hnone : (shortEscapes.find? fun e => e.2 = c) = none := by
        refine List.find?_eq_none.mpr fun e he heq => ?_
        have hcode : e.2 = c := of_decide_eq_true heq
        simp only [shortEscapes, List.mem_cons, List.not_mem_nil, or_false] at he
        rcases he with rfl | rfl | rfl | rfl | rfl | rfl | rfl <;> subst hcode <;>
          first
            | exact absurd rfl hquote
            | exact absurd rfl hback
            | exact absurd (by decide) hsmall
      rw [escapeChar, hnone]
      exact if_neg hsmall
    rw [hplain, List.singleton_append, readString]
    · rw [if_neg hsmall]
    · exact fun h => hquote h
    · exact fun a b cs h _ => hback h
    · exact fun e cs h _ => hback h

theorem readString_print (s rest : List Char) :
    readString (s.flatMap escapeChar ++ '"' :: rest) = some (s, rest) := by
  induction s with
  | nil => rfl
  | cons c s ih => rw [List.flatMap_cons, List.append_assoc, readString_escapeChar, ih, Option.map_some]

/-- Whatever a digit is not. -/
theorem digit_spec : ∀ c ∈ Decimal.digits, isWordChar c = true ∧ c.isAlpha = false ∧
    isSpace c = false ∧ c ≠ ']' ∧ c ≠ '\x7d' := by
  simp only [Decimal.digits, List.forall_mem_cons]
  exact ⟨by decide, by decide, by decide, by decide, by decide, by decide, by decide, by decide, by decide,
    by decide, fun _ hc => absurd hc List.not_mem_nil⟩

theorem text_wordChar {n : Int} : ∀ c ∈ Decimal.text n, isWordChar c = true := by
  intro c hc
  rcases Decimal.mem_text hc with rfl | hd
  · decide
  · exact (digit_spec c hd).1

theorem unsigned_text (n : Int) : unsigned (Decimal.text n) = Nat.toDigits 10 n.natAbs := by
  by_cases hneg : n < 0
  · rw [Decimal.text_neg hneg]
    rfl
  · rw [Decimal.text_nonneg (by omega)]
    refine if_neg fun hminus => ?_
    have hmem := Decimal.mem_toDigits (List.mem_of_mem_head? hminus)
    exact absurd hmem (by decide)

/-- A number is written without zeros in front. -/
theorem head_toDigits {n : Nat} (hn : 0 < n) : (Nat.toDigits 10 n).head? ≠ some '0' := by
  induction n using Nat.strong_induction_on with
  | _ n ih =>
    by_cases hlt : n < 10
    · rw [Nat.toDigits_of_lt_base hlt]
      interval_cases n <;> decide
    · have hne : Nat.toDigits 10 (n / 10) ≠ [] := Nat.toDigits_ne_nil
      rw [Nat.toDigits_of_base_le (by decide) (by omega), List.head?_append_of_ne_nil _ hne]
      exact ih (n / 10) (by omega) (by omega)

theorem isWhole_toDigits (n : Nat) : isWhole (Nat.toDigits 10 n) = true := by
  have hall : (Nat.toDigits 10 n).all Char.isDigit = true := List.all_eq_true.mpr fun c hc =>
    Nat.isDigit_of_mem_toDigits (by decide) (by decide) hc
  have hhead : (Nat.toDigits 10 n).head? ≠ some '0' ∨ (Nat.toDigits 10 n).length = 1 := by
    rcases Nat.eq_zero_or_pos n with rfl | hn
    · exact Or.inr rfl
    · exact Or.inl (head_toDigits hn)
  rw [isWhole, hall]
  simpa [Nat.toDigits_ne_nil] using hhead

theorem wordValue_text (n : Int) : wordValue (Decimal.text n) = some (.int n) := by
  have hletter : ∀ w : List Char, w.any Char.isAlpha = true → Decimal.text n ≠ w := by
    rintro w hw rfl
    obtain ⟨c, hc, halpha⟩ := List.any_eq_true.mp hw
    rcases Decimal.mem_text hc with rfl | hd
    · cases halpha
    · rw [(digit_spec c hd).2.1] at halpha
      cases halpha
  rw [wordValue, if_neg (hletter _ (by decide)), if_neg (hletter _ (by decide)),
    if_neg (hletter _ (by decide)), unsigned_text, if_pos (isWhole_toDigits _), Decimal.parse_text]
  rfl

/-- What a text begins with: no blank, and nothing that closes a list. -/
def Begins (text : List Char) : Prop := ∃ c cs, text = c :: cs ∧ isSpace c = false ∧ c ≠ ']' ∧ c ≠ '\x7d'

theorem begins_text (n : Int) : Begins (Decimal.text n) := by
  obtain ⟨c, cs, hcs⟩ := List.exists_cons_of_ne_nil (show Decimal.text n ≠ [] by
    unfold Decimal.text
    split
    · nofun
    · exact Nat.toDigits_ne_nil)
  refine ⟨c, cs, hcs, ?_⟩
  rcases Decimal.mem_text (hcs ▸ List.mem_cons_self : c ∈ Decimal.text n) with rfl | hd
  · decide
  · exact (digit_spec c hd).2.2

theorem begins_print {j : Json} (hj : j.isWholeNumbered = true) : Begins (print j) := by
  cases j with
  | null => exact ⟨'n', _, rfl, by decide⟩
  | bool b => cases b with
    | true => exact ⟨'t', _, rfl, by decide⟩
    | false => exact ⟨'f', _, rfl, by decide⟩
  | int n => exact begins_text n
  | float text => cases hj
  | str s => exact ⟨'"', _, rfl, by decide⟩
  | arr items => exact ⟨'[', _, rfl, by decide⟩
  | obj members => exact ⟨'\x7b', _, rfl, by decide⟩

section Lists

variable {α : Type} {item : Reader α} {close : Char} {text : α → List Char}

/-- Behind an item comes a comma or the end of the list. -/
theorem moreCommas_cons (close : Char) (ts : List (List Char)) :
    ∃ c cs, moreCommas close ts = c :: cs ∧ (c = close ∨ c = ',') := by
  cases ts with
  | nil => exact ⟨close, [], rfl, Or.inl rfl⟩
  | cons t ts => exact ⟨',', _, rfl, Or.inr rfl⟩

theorem length_moreCommas (close : Char) {ts : List (List Char)} {t : List Char} (ht : t ∈ ts) :
    t.length < (moreCommas close ts).length := by
  induction ts with
  | nil => cases ht
  | cons t' ts ih =>
    rw [moreCommas, List.length_cons, List.length_append]
    rcases List.mem_cons.mp ht with rfl | ht
    · omega
    · have := ih ht
      omega

theorem length_commas (close : Char) {ts : List (List Char)} {t : List Char} (ht : t ∈ ts) :
    t.length < (commas close ts).length := by
  cases ts with
  | nil => cases ht
  | cons t' ts =>
    rw [commas, List.length_append]
    rcases List.mem_cons.mp ht with rfl | ht
    · obtain ⟨c, cs, hcs, _⟩ := moreCommas_cons close ts
      rw [hcs, List.length_cons]
      omega
    · have := length_moreCommas close ht
      omega

theorem card_moreCommas (close : Char) (ts : List (List Char)) : ts.length < (moreCommas close ts).length := by
  induction ts with
  | nil => exact Nat.one_pos
  | cons t ts ih =>
    rw [moreCommas, List.length_cons, List.length_cons, List.length_append]
    omega

theorem readMore_print (hclose : isSpace close = false ∧ isWordChar close = false) (hcomma : close ≠ ',')
    {xs : List α} {x : α}
    (hitem : ∀ y ∈ x :: xs, ∀ rest, Ends rest → item (text y ++ rest) = some (y, rest)) {n : Nat}
    (hn : xs.length < n) (rest : List Char) :
    readMore item close n (text x ++ (moreCommas close (xs.map text) ++ rest)) = some (x :: xs, rest) := by
  obtain ⟨n, rfl⟩ := Nat.exists_eq_succ_of_ne_zero (Nat.ne_of_gt (Nat.zero_lt_of_lt hn))
  induction xs generalizing x n with
  | nil =>
    rw [readMore, List.map_nil, moreCommas, List.singleton_append,
      hitem x List.mem_cons_self _ (ends_cons hclose.2 rest), Option.bind_some]
    dsimp only
    rw [skipSpace_cons hclose.1]
    exact if_pos rfl
  | cons y xs ih =>
    obtain ⟨n, rfl⟩ := Nat.exists_eq_succ_of_ne_zero (n := n) (by rw [List.length_cons] at hn; omega)
    rw [readMore, List.map_cons, moreCommas, List.cons_append,
      hitem x List.mem_cons_self _ (ends_cons (by decide) _), Option.bind_some]
    dsimp only
    rw [skipSpace_cons (by decide), List.append_assoc]
    dsimp only
    rw [if_neg (Ne.symm hcomma), if_pos rfl,
      ih (fun z hz => hitem z (List.mem_cons_of_mem _ hz)) n (by rw [List.length_cons] at hn; omega)]
    rfl

/-- A list is read back, if its items are. -/
theorem readItems_print (hclose : close = ']' ∨ close = '\x7d') {xs : List α}
    (hbegins : ∀ y ∈ xs, Begins (text y))
    (hitem : ∀ y ∈ xs, ∀ rest, Ends rest → item (text y ++ rest) = some (y, rest)) {n : Nat}
    (hn : (commas close (xs.map text)).length ≤ n) (rest : List Char) :
    readItems item close n (commas close (xs.map text) ++ rest) = some (xs, rest) := by
  have hplain : isSpace close = false ∧ isWordChar close = false := by
    rcases hclose with rfl | rfl <;> decide
  have hcomma : close ≠ ',' := by rcases hclose with rfl | rfl <;> decide
  cases xs with
  | nil =>
    rw [readItems, List.map_nil, commas, List.singleton_append, skipSpace_cons hplain.1]
    exact if_pos rfl
  | cons x xs =>
    obtain ⟨c, cs, hcs, hspace, hbracket, hbrace⟩ := hbegins x List.mem_cons_self
    have hc : c ≠ close := by rcases hclose with rfl | rfl <;> assumption
    have hlen : xs.length < n := by
      have hcard := card_moreCommas close (xs.map text)
      rw [List.map_cons, commas, List.length_append] at hn
      rw [List.length_map] at hcard
      omega
    have hread := readMore_print hplain hcomma hitem hlen rest
    rw [readItems, List.map_cons, commas, List.append_assoc]
    rw [hcs, List.cons_append] at hread ⊢
    rw [skipSpace_cons hspace]
    dsimp only
    rw [if_neg hc, hread]

end Lists

theorem begins_member (m : List Char × Json) : Begins (printMember m) :=
  ⟨'"', _, rfl, by decide⟩

theorem readKeyed_colon (value : Reader Json) (key cs : List Char) :
    readKeyed value key (':' :: cs) = (value cs).map fun p => ((key, p.1), p.2) := rfl

theorem readMember_quote (value : Reader Json) (cs : List Char) : readMember value ('"' :: cs) =
    (readString cs).bind fun k => readKeyed value k.1 k.2 := rfl

theorem readMember_print {value : Reader Json} {m : List Char × Json}
    (hvalue : ∀ rest, Ends rest → value (print m.2 ++ rest) = some (m.2, rest)) (rest : List Char)
    (hrest : Ends rest) : readMember value (printMember m ++ rest) = some (m, rest) := by
  have htext : printMember m ++ rest =
      '"' :: (m.1.flatMap escapeChar ++ '"' :: (':' :: (print m.2 ++ rest))) := by
    simp [printMember, printString]
  rw [htext, readMember_quote, readString_print, Option.bind_some, readKeyed_colon,
    hvalue rest hrest]
  rfl

theorem readValue_quote (n : Nat) (cs : List Char) :
    readValue (n + 1) ('"' :: cs) = (readString cs).map fun p => (.str p.1, p.2) := rfl

theorem readValue_bracket (n : Nat) (cs : List Char) : readValue (n + 1) ('[' :: cs) =
    (readItems (readValue n) ']' n cs).map fun p => (.arr p.1, p.2) := rfl

theorem readValue_brace (n : Nat) (cs : List Char) : readValue (n + 1) ('\x7b' :: cs) =
    (readItems (readMember (readValue n)) '\x7d' n cs).map fun p => (.obj p.1, p.2) := rfl

theorem readValue_word {w rest : List Char} (hw : w.all isWordChar = true) (hb : Begins w)
    (hrest : Ends rest) (n : Nat) :
    readValue (n + 1) (w ++ rest) = (wordValue w).map fun j => (j, rest) := by
  have hall := List.all_eq_true.mp hw
  obtain ⟨c, cs, rfl, hspace, _⟩ := hb
  have hc := hall c List.mem_cons_self
  rw [← readWord_append hall hrest, List.cons_append, readValue, skipSpace_cons hspace]
  split
  · next heq =>
    cases heq
    exact absurd hc (by decide)
  · next heq =>
    cases heq
    exact absurd hc (by decide)
  · next heq =>
    cases heq
    exact absurd hc (by decide)
  · rfl

/-- The induction is on the fuel: what is inside a document has a shorter text. -/
theorem readValue_print {n : Nat} {j : Json} (hj : j.isWholeNumbered = true) (hn : (print j).length < n)
    {rest : List Char} (hrest : Ends rest) : readValue n (print j ++ rest) = some (j, rest) := by
  induction n generalizing j rest with
  | zero => cases hn
  | succ n ih =>
    cases j with
    | null =>
      exact readValue_word (w := "null".toList) (by decide +kernel) (begins_print (j := .null) hj) hrest n
    | bool b =>
      cases b with
      | true =>
        exact readValue_word (w := "true".toList) (by decide +kernel) (begins_print (j := .bool true) hj)
          hrest n
      | false =>
        exact readValue_word (w := "false".toList) (by decide +kernel) (begins_print (j := .bool false) hj)
          hrest n
    | int k =>
      rw [print, readValue_word (List.all_eq_true.mpr text_wordChar) (begins_text k) hrest, wordValue_text]
      rfl
    | float text => cases hj
    | str s =>
      have htext : print (.str s) ++ rest = '"' :: (s.flatMap escapeChar ++ '"' :: rest) := by
        simp [print, printString]
      rw [htext, readValue_quote, readString_print]
      rfl
    | arr items =>
      have hwhole : ∀ i ∈ items, i.isWholeNumbered = true := allWhole_iff.mp hj
      rw [print, printItems_eq, List.length_cons] at hn
      have hbegins : ∀ i ∈ items, Begins (print i) := fun i hi => begins_print (hwhole i hi)
      have hshort : ∀ i ∈ items, (print i).length < n := fun i hi => by
        have hlen := length_commas ']' (List.mem_map_of_mem (f := print) hi)
        omega
      rw [print, printItems_eq, List.cons_append, readValue_bracket, readItems_print (Or.inl rfl) hbegins
        (fun i hi r hr => ih (hwhole i hi) (hshort i hi) hr) (by omega)]
      rfl
    | obj members =>
      have hwhole : ∀ m ∈ members, m.2.isWholeNumbered = true := allWholeMembers_iff.mp hj
      rw [print, printMembers_eq, List.length_cons] at hn
      have hshort : ∀ m ∈ members, (print m.2).length < n := fun m hm => by
        have hlen := length_commas '\x7d' (List.mem_map_of_mem (f := printMember) hm)
        rw [printMember, List.length_append, List.length_cons] at hlen
        omega
      rw [print, printMembers_eq, List.cons_append, readValue_brace, readItems_print (Or.inr rfl)
        (fun m _ => begins_member m)
        (fun m hm => readMember_print fun r hr => ih (hwhole m hm) (hshort m hm) hr) (by omega)]
      rfl

/-- **The round trip.** A document without fractions and exponents is read back from its text. -/
theorem read_print {j : Json} (hj : j.isWholeNumbered = true) : read (print j) = some j := by
  have hread : readValue ((print j).length + 1) (print j ++ []) = some (j, []) :=
    readValue_print hj (Nat.lt_succ_self _) (by rintro c ⟨⟩)
  rw [List.append_nil] at hread
  rw [read, hread]
  rfl

theorem read_of_print {j : Json} {text : List Char} (hj : j.isWholeNumbered = true)
    (h : print j = text) : read text = some j := h ▸ read_print hj

end Json
