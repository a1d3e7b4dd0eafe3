/-
  Reading the lease file line by line.

  `fgets` returns a line in pieces of 511 bytes. A line of dnsmasq has its first four fields in
  its first piece (`LeaseLine.front_length`), which parses to the record of the line. The other
  pieces are cut from the client id, so white space can only be their last byte (`Solid`). For
  such a piece to convert three fields, `%63s` has to stop at its width, and the longest text
  without white space that is accepted as an address has 18 bytes (`Spells.length_le`).
-/
import Netparent.Rebuild
import Netparent.MacGrammar
import Netparent.Lib.Decimal

namespace Netparent

/-! ## Lines -/

/-- Not empty, without white space or NUL. -/
def IsWord (s : Str) : Prop := s ≠ [] ∧ ∀ c ∈ s, isspace c = false ∧ c ≠ '\x00'

/-- A line `<expiry> <mac> <ip> <hostname> <client_id>`; the client id may have any length. -/
structure LeaseLine where
  expiry : Int
  mac : Str
  ip : Str
  hostname : Str
  clientId : Str
  expiry_long : -2 ^ 63 ≤ expiry ∧ expiry < 2 ^ 63
  mac_word : IsWord mac ∧ mac.length ≤ 63
  ip_word : IsWord ip ∧ ip.length ≤ 45
  hostname_word : IsWord hostname ∧ hostname.length ≤ 63
  clientId_word : IsWord clientId

namespace LeaseLine

/-- The line up to the client id, and then `rest`. -/
def front (l : LeaseLine) (rest : Str) : Str :=
  Decimal.text l.expiry ++ ' ' :: (l.mac ++ ' ' :: (l.ip ++ ' ' :: (l.hostname ++ ' ' :: rest)))

def text (l : LeaseLine) : Str := l.front l.clientId

/-- The record of the line, without the time it was read. -/
def record (l : LeaseLine) : Option Dev :=
  (npMacNormalize l.mac).map fun norm =>
    { mac := norm
      ip := l.ip
      hostname := if l.hostname = "*".toList then [] else l.hostname
      leaseExpires := l.expiry }

end LeaseLine

/-- A record without the time it was read. -/
def Dev.unseen (d : Dev) : Dev := { d with lastSeen := 0 }

/-- The lines of a file, each with its newline; the last one may lack it. -/
def fileLines : List LeaseLine → (ended : Bool) → List Str
  | [], _ => []
  | [l], ended => [l.text ++ if ended then ['\n'] else []]
  | l :: ls, ended => (l.text ++ ['\n']) :: fileLines ls ended

def fileText (ls : List LeaseLine) (ended : Bool) : Str := (fileLines ls ended).flatten

/-! ## Pieces -/

theorem fgetsLoop_fuel {size fuel : Nat} {s : Str} (h : s.length ≤ fuel) :
    fgetsLoop (size + 2) fuel s = fgetsLines (size + 2) s := by
  have hmore : ∀ n (s : Str), s.length ≤ n → ∀ m, s.length ≤ m →
      fgetsLoop (size + 2) n s = fgetsLoop (size + 2) m s := by
    intro n
    induction n with
    | zero =>
      intro s hs m _
      obtain rfl := List.length_eq_zero_iff.mp (Nat.le_zero.mp hs)
      cases m <;> rfl
    | succ n ih =>
      intro s hs m hm
      cases m with
      | zero =>
        obtain rfl := List.length_eq_zero_iff.mp (Nat.le_zero.mp hm)
        rfl
      | succ m =>
        rw [fgetsLoop, fgetsLoop]
        cases hf : fgets (size + 2) s with
        | none => rfl
        | some p =>
          obtain ⟨piece, rest⟩ := p
          have := fgets_progress hf
          dsimp only
          rw [ih rest (by omega) m (by omega)]
  exact hmore fuel s h s.length (Nat.le_refl _)

theorem fgetsLines_nil (size : Nat) : fgetsLines (size + 2) [] = [] := rfl

theorem fgetsLines_cons {size : Nat} {s piece rest : Str}
    (h : fgets (size + 2) s = some (piece, rest)) :
    fgetsLines (size + 2) s = piece :: fgetsLines (size + 2) rest := by
  have hlt := fgets_progress h
  obtain ⟨fuel, hfuel⟩ : ∃ fuel, s.length = fuel + 1 := ⟨s.length - 1, by omega⟩
  rw [fgetsLines, hfuel, fgetsLoop, h]
  dsimp only
  rw [fgetsLoop_fuel (by omega)]

/-- A read that meets a newline. -/
theorem fgets_line {n : Nat} {a : Str} (ha : '\n' ∉ a) (s : Str) :
    fgets (n + 2) (a ++ '\n' :: s) =
      if a.length ≤ n then some (a ++ ['\n'], s)
      else some (a.take (n + 1), a.drop (n + 1) ++ '\n' :: s) := by
  induction n generalizing a with
  | zero =>
    cases a with
    | nil => rfl
    | cons c cs =>
      have hc : c ≠ '\n' := fun he => ha (he ▸ List.mem_cons_self)
      simp [fgets, hc]
  | succ n ih =>
    cases a with
    | nil => rfl
    | cons c cs =>
      have hc : c ≠ '\n' := fun he => ha (he ▸ List.mem_cons_self)
      rw [List.cons_append, fgets, if_neg hc, ih fun hm => ha (List.mem_cons_of_mem _ hm)]
      by_cases hlen : cs.length ≤ n
      · rw [if_pos hlen, if_pos (by simpa using hlen)]
        rfl
      · rw [if_neg hlen, if_neg (by simpa using hlen)]
        rfl

/-- A newline ends a piece. -/
theorem fgetsLines_line {n : Nat} {a : Str} (ha : '\n' ∉ a) (s : Str) :
    fgetsLines (n + 2) (a ++ '\n' :: s) =
      fgetsLines (n + 2) (a ++ ['\n']) ++ fgetsLines (n + 2) s := by
  induction hk : a.length using Nat.strong_induction_on generalizing a with
  | _ k ih =>
    have hread := fgets_line ha (n := n) s
    have hread' := fgets_line ha (n := n) []
    by_cases hlen : a.length ≤ n
    · rw [if_pos hlen] at hread hread'
      rw [fgetsLines_cons hread, fgetsLines_cons hread', fgetsLines_nil]
      rfl
    · rw [if_neg hlen] at hread hread'
      have hrest : '\n' ∉ a.drop (n + 1) := fun hm => ha (List.mem_of_mem_drop hm)
      rw [fgetsLines_cons hread, fgetsLines_cons hread',
        ih (a.drop (n + 1)).length (by rw [List.length_drop]; omega) hrest rfl]
      rfl

/-- The pieces of one line. -/
theorem fgetsLines_oneLine {n : Nat} {s : Str} (hs : s ≠ []) (hn : '\n' ∉ s.dropLast) :
    fgetsLines (n + 2) s = s.take (n + 1) :: fgetsLines (n + 2) (s.drop (n + 1)) :=
  fgetsLines_cons (fgets_eq_take hs hn)

/-! ## Continuation pieces -/

/-- White space only as the last byte, and no NUL. -/
def Solid (s : Str) : Prop := (∀ c ∈ s.dropLast, isspace c = false) ∧ ∀ c ∈ s, c ≠ '\x00'

theorem Solid.infix {p s : Str} (h : Solid s) (hp : p <:+: s) : Solid p := by
  obtain ⟨a, b, rfl⟩ := hp
  refine ⟨fun c hc => h.1 c ?_, fun c hc => h.2 c (by simp [hc])⟩
  by_cases hb : b = []
  · have hp : p ≠ [] := fun he => by rw [he] at hc; cases hc
    rw [hb, List.append_nil, List.dropLast_append_of_ne_nil hp]
    exact List.mem_append_right _ hc
  · rw [List.dropLast_append_of_ne_nil hb]
    exact List.mem_append_left _ (List.mem_append_right _ (List.mem_of_mem_dropLast hc))

theorem Solid.suffix {p s : Str} (h : Solid s) (hp : p <:+ s) : Solid p := h.infix hp.isInfix

theorem Solid.no_newline {s : Str} (h : Solid s) : '\n' ∉ s.dropLast := fun hm =>
  absurd (h.1 _ hm) (by decide)

theorem Solid.cstr {s : Str} (h : Solid s) : cstr s = s :=
  List.takeWhile_eq_self_iff.mpr fun c hc => by simpa using h.2 c hc

/-- Every piece of a solid text is solid. -/
theorem Solid.pieces {n : Nat} {s : Str} (h : Solid s) {p : Str}
    (hp : p ∈ fgetsLines (n + 2) s) : Solid p := by
  induction hk : s.length using Nat.strong_induction_on generalizing s with
  | _ k ih =>
    by_cases hs : s = []
    · rw [hs, fgetsLines_nil] at hp
      cases hp
    · rw [fgetsLines_oneLine hs h.no_newline] at hp
      rcases List.mem_cons.mp hp with rfl | hp
      · exact h.infix (List.take_prefix _ _).isInfix
      · have hpos := List.length_pos_iff.mpr hs
        exact ih _ (by rw [List.length_drop]; omega) (h.suffix (List.drop_suffix _ _)) hp rfl

theorem Spells.length_le {gs : List Str} {t : Str} (h : Spells gs t) : t.length ≤ 3 * gs.length := by
  have hgroup : ∀ {g : Str}, IsGroup g → g.length ≤ 2 := fun hg => by
    rcases hg.1 with h1 | h2 <;> omega
  induction h with
  | last hg =>
    have := hgroup hg
    simp only [List.length_singleton]
    omega
  | trailing hg _ =>
    have := hgroup hg
    simp only [List.length_append, List.length_singleton]
    omega
  | cons hg _ _ ih =>
    have := hgroup hg
    simp only [List.length_append, List.length_cons]
    omega

/-- A long text without white space is no address. -/
theorem npMacNormalize_long {t : Str} (hs : ∀ c ∈ t, isspace c = false) (hlen : 18 < t.length) :
    npMacNormalize t = none := by
  rw [Option.eq_none_iff_forall_not_mem]
  intro u hu
  obtain ⟨gs, hgs, hsix, _⟩ := npMacNormalize_eq_some.mp hu
  have hself : despace t = t := List.filter_eq_self.mpr fun c hc => by simp [hs c hc]
  have := hgs.length_le
  rw [hself] at this
  omega

theorem scanLong_suffix {s r : Str} {e : Int} (h : scanLong s = some (e, r)) : r <:+ s := by
  have hsign : ∀ (b : Prop) [Decidable b] (u : Str), (if b then u.tail else u) <:+ u := by
    intro b _ u
    split
    · exact List.tail_suffix u
    · exact List.suffix_refl u
  rw [scanLong, Option.ite_none_left_eq_some, Option.some.injEq, Prod.mk.injEq] at h
  obtain ⟨_, _, rfl⟩ := h
  exact ((List.drop_suffix _ _).trans (hsign _ _)).trans (List.dropWhile_suffix _)

theorem drop_takeWhile {α : Type} (p : α → Bool) (u : List α) :
    u.drop (u.takeWhile p).length = u.dropWhile p := by
  have happ := congrArg (List.drop (u.takeWhile p).length)
    (List.takeWhile_append_dropWhile (p := p) (l := u))
  rw [List.drop_left] at happ
  exact happ.symm

/-- Behind a word of a solid text there is at most its delimiter. -/
theorem scanWord_delimiter {u : Str} (h : Solid u) (width : Nat) :
    scanWord width (u.dropWhile fun c => !isspace c) = none := by
  cases hd : u.dropWhile fun c => !isspace c with
  | nil => simp [scanWord]
  | cons c cs =>
    have hc : isspace c = true := by
      have := List.head?_dropWhile_not (fun c => !isspace c) u
      rw [hd] at this
      simpa using this
    have hcs : cs = [] := by
      by_contra hcs
      have hsuf : c :: cs <:+ u := hd ▸ List.dropWhile_suffix _
      have := (h.suffix hsuf).1 c
        (by rw [List.dropLast_cons_of_ne_nil hcs]; exact List.mem_cons_self)
      rw [hc] at this
      cases this
    simp [scanWord, hc, hcs]

/-- A word of a solid text that is not its last word was cut off at the width. -/
theorem scanWord_solid {width : Nat} {s t r : Str} (h : Solid s) (hw : scanWord width s = some (t, r))
    {width' : Nat} (hmore : scanWord width' r ≠ none) :
    t.length = width ∧ ∀ c ∈ t, isspace c = false := by
  rw [scanWord, Option.ite_none_left_eq_some, Option.some.injEq, Prod.mk.injEq] at hw
  obtain ⟨_, rfl, rfl⟩ := hw
  have hsolid : Solid (s.dropWhile isspace) := h.suffix (List.dropWhile_suffix _)
  refine ⟨?_, fun c hc => by simpa using List.mem_takeWhile_imp (List.mem_of_mem_take hc)⟩
  by_contra hne
  have hwhole : ((s.dropWhile isspace).takeWhile fun c => !isspace c).take width =
      (s.dropWhile isspace).takeWhile fun c => !isspace c :=
    List.take_of_length_le (by rw [List.length_take] at hne; omega)
  rw [hwhole, drop_takeWhile] at hmore
  exact hmore (scanWord_delimiter hsolid width')

/-- A solid piece yields no record. -/
theorem parseLeaseLine_solid {κ : Type} (h : Host κ) {p : Str} (hp : Solid p) (w : World κ) :
    parseLeaseLine h p w = (none, w) := by
  unfold parseLeaseLine
  split
  · rfl
  · next f hf =>
    have hmac : npMacNormalize f.mac = none := by
      unfold sscanfLease at hf
      obtain ⟨⟨e, r⟩, he, hf⟩ := Option.bind_eq_some_iff.mp hf
      obtain ⟨⟨t, r'⟩, ht, hf⟩ := Option.bind_eq_some_iff.mp hf
      obtain ⟨⟨i, r''⟩, hi, hf⟩ := Option.bind_eq_some_iff.mp hf
      cases hf
      obtain ⟨hlen, hspace⟩ := scanWord_solid (hp.suffix (scanLong_suffix he)) ht (by rw [hi]; simp)
      exact npMacNormalize_long hspace (by rw [hlen]; decide)
    rw [hmac]

/-! ## First pieces -/

theorem IsWord.head {s : Str} (h : IsWord s) (rest : Str) :
    (s ++ rest).dropWhile isspace = s ++ rest := by
  obtain ⟨c, cs, rfl⟩ := List.exists_cons_of_ne_nil h.1
  exact List.dropWhile_cons_of_neg (by simp [(h.2 c List.mem_cons_self).1])

/-- A word is read whole when it is no longer than the width. -/
theorem scanWord_word {width : Nat} {s : Str} (h : IsWord s) (hlen : s.length ≤ width)
    (rest : Str) : scanWord width (' ' :: (s ++ ' ' :: rest)) = some (s, ' ' :: rest) := by
  have hskip : (' ' :: (s ++ ' ' :: rest)).dropWhile isspace = s ++ ' ' :: rest :=
    (List.dropWhile_cons_of_pos (by decide)).trans (h.head _)
  have htake : (s ++ ' ' :: rest).takeWhile (fun c => !isspace c) = s := by
    rw [List.takeWhile_append_of_pos fun c hc => by simp [(h.2 c hc).1],
      List.takeWhile_cons_of_neg (by decide), List.append_nil]
  unfold scanWord
  dsimp only
  rw [hskip, htake, List.take_of_length_le hlen, if_neg h.1, List.drop_left]

theorem digitsValue_eq (ds : Str) : digitsValue ds = Nat.ofDigitChars 10 ds 0 := by
  have hstep : ∀ (n : Nat) (c : Char), (n : Int) * 10 + (c.toNat - '0'.toNat : Nat) =
      (10 * n + (c.toNat - '0'.toNat) : Nat) := by
    intro n c
    push_cast
    ring
  have hfold : ∀ (ds : Str) (n : Nat),
      ds.foldl (fun (n : Int) c => n * 10 + (c.toNat - '0'.toNat : Nat)) n =
        Nat.ofDigitChars 10 ds n := by
    intro ds
    induction ds with
    | nil => intro n; rfl
    | cons c cs ih =>
      intro n
      rw [List.foldl_cons, hstep, ih, Nat.ofDigitChars_cons]
  exact hfold ds 0

theorem isdigit_of_mem {c : Char} (h : c ∈ Decimal.digits) : isdigit c = true := by
  have hall : ∀ d ∈ Decimal.digits, isdigit d = true := by simp [Decimal.digits, isdigit]
  exact hall c h

theorem decimal_word (n : Int) : IsWord (Decimal.text n) := by
  constructor
  · unfold Decimal.text
    split
    · exact List.cons_ne_nil _ _
    · exact Nat.toDigits_ne_nil
  · intro c hc
    have hall : ∀ d ∈ Decimal.digits, isspace d = false ∧ d ≠ '\x00' := by
      simp [Decimal.digits, isspace]
    rcases Decimal.mem_text hc with rfl | hd
    · decide
    · exact hall c hd

/-- The digits in front of a space. -/
theorem takeWhile_digits (m : Nat) (rest : Str) :
    (Nat.toDigits 10 m ++ ' ' :: rest).takeWhile isdigit = Nat.toDigits 10 m := by
  rw [List.takeWhile_append_of_pos fun c hc => isdigit_of_mem (Decimal.mem_toDigits hc),
    List.takeWhile_cons_of_neg (by decide), List.append_nil]

theorem scanLong_minus (m : Nat) (rest : Str) :
    scanLong ('-' :: (Nat.toDigits 10 m ++ ' ' :: rest)) = some (clampLong (-m), ' ' :: rest) := by
  have hskip : ('-' :: (Nat.toDigits 10 m ++ ' ' :: rest)).dropWhile isspace =
      '-' :: (Nat.toDigits 10 m ++ ' ' :: rest) := List.dropWhile_cons_of_neg (by decide)
  simp only [scanLong, hskip, List.head?_cons, true_or, if_true, List.tail_cons, takeWhile_digits,
    if_neg Nat.toDigits_ne_nil, List.drop_left, digitsValue_eq, Nat.ofDigitChars_ten_toDigits]
  rw [neg_one_mul]

theorem scanLong_plain (m : Nat) (rest : Str) :
    scanLong (Nat.toDigits 10 m ++ ' ' :: rest) = some (clampLong m, ' ' :: rest) := by
  obtain ⟨d, ds, hds⟩ := List.exists_cons_of_ne_nil (Nat.toDigits_ne_nil (b := 10) (n := m))
  have hall : ∀ d ∈ Decimal.digits, isspace d = false ∧ d ≠ '-' ∧ d ≠ '+' := by
    simp [Decimal.digits, isspace]
  obtain ⟨hspace, hminus, hplus⟩ := hall d (Decimal.mem_toDigits (hds ▸ List.mem_cons_self))
  have hhead : (Nat.toDigits 10 m ++ ' ' :: rest).head? = some d := by rw [hds]; rfl
  have hskip : (Nat.toDigits 10 m ++ ' ' :: rest).dropWhile isspace =
      Nat.toDigits 10 m ++ ' ' :: rest := by
    rw [hds]
    exact List.dropWhile_cons_of_neg (by simp [hspace])
  simp only [scanLong, hskip, hhead, Option.some.injEq, hminus, hplus, or_self, if_false,
    takeWhile_digits, if_neg Nat.toDigits_ne_nil, List.drop_left, digitsValue_eq,
    Nat.ofDigitChars_ten_toDigits]
  rw [one_mul]

/-- `%ld` reads back the decimal of a `long`. -/
theorem scanLong_text {n : Int} (hn : -2 ^ 63 ≤ n ∧ n < 2 ^ 63) (rest : Str) :
    scanLong (Decimal.text n ++ ' ' :: rest) = some (n, ' ' :: rest) := by
  have hclamp : clampLong n = n := by
    unfold clampLong
    omega
  by_cases hneg : n < 0
  · rw [Decimal.text_neg hneg, List.cons_append, scanLong_minus, show -(n.natAbs : Int) = n by omega,
      hclamp]
  · rw [Decimal.text_nonneg (by omega), scanLong_plain, show (n.natAbs : Int) = n by omega, hclamp]

namespace LeaseLine

variable (l : LeaseLine)

theorem front_append (a b : Str) : l.front a ++ b = l.front (a ++ b) := by
  simp only [front, List.append_assoc, List.cons_append]

/-- What `sscanf` reads, whatever stands behind the host name. -/
theorem sscanf_front (rest : Str) : sscanfLease (l.front rest) =
    some { expiry := l.expiry, mac := l.mac, ip := l.ip, host := some l.hostname } := by
  unfold sscanfLease front
  rw [scanLong_text l.expiry_long, Option.bind_some, scanWord_word l.mac_word.1 l.mac_word.2,
    Option.bind_some, scanWord_word l.ip_word.1 l.ip_word.2, Option.bind_some,
    scanWord_word l.hostname_word.1 l.hostname_word.2]
  rfl

theorem leaseRecord_unseen (now : Int) :
    (leaseRecord { expiry := l.expiry, mac := l.mac, ip := l.ip, host := some l.hostname } now).map
      Dev.unseen = l.record := by
  have hip : l.ip.take (ipLen - 1) = l.ip := List.take_of_length_le l.ip_word.2
  have hhost : l.hostname.take (hostnameLen - 1) = l.hostname :=
    List.take_of_length_le l.hostname_word.2
  unfold leaseRecord record
  rw [Option.map_map]
  congr 1
  funext norm
  dsimp only [Function.comp_apply, Dev.unseen]
  rw [hip, hhost]
  by_cases hstar : l.hostname = "*".toList
  · rw [if_pos hstar, if_neg (not_not.mpr hstar)]
  · rw [if_neg hstar, if_pos hstar]

theorem parse_front {κ : Type} (h : Host κ) (rest : Str) (w : World κ) :
    (parseLeaseLine h (l.front rest) w).1.map Dev.unseen = l.record := by
  unfold parseLeaseLine
  rw [l.sscanf_front]
  dsimp only
  cases hn : npMacNormalize l.mac with
  | none => simp [record, hn]
  | some norm => exact l.leaseRecord_unseen _

/-- The client id starts within the first 511 bytes. -/
theorem front_length : (l.front []).length ≤ 195 := by
  have hexp : (Decimal.text l.expiry).length ≤ 20 :=
    Decimal.text_length (by decide) (by have := l.expiry_long; omega)
  have hmac := l.mac_word.2
  have hip := l.ip_word.2
  have hhost := l.hostname_word.2
  simp only [front, List.length_append, List.length_cons, List.length_nil]
  omega

theorem front_nul {rest : Str} (hrest : ∀ c ∈ rest, c ≠ '\x00') : ∀ c ∈ l.front rest, c ≠ '\x00' := by
  have hword : ∀ {s : Str}, IsWord s → ∀ {c}, c ∈ s → c ≠ '\x00' := fun hs _ hc => (hs.2 _ hc).2
  intro c hc
  simp only [front, List.mem_append, List.mem_cons] at hc
  rcases hc with hc | rfl | hc | rfl | hc | rfl | hc | rfl | hc
  · exact hword (decimal_word _) hc
  · decide
  · exact hword l.mac_word.1 hc
  · decide
  · exact hword l.ip_word.1 hc
  · decide
  · exact hword l.hostname_word.1 hc
  · decide
  · exact hrest c hc

theorem front_newline {rest : Str} (hrest : '\n' ∉ rest) : '\n' ∉ l.front rest := by
  have hword : ∀ {s : Str}, IsWord s → '\n' ∉ s := fun hs hm => absurd (hs.2 _ hm).1 (by decide)
  simp only [front, List.mem_append, List.mem_cons, not_or]
  exact ⟨hword (decimal_word _), by decide, hword l.mac_word.1, by decide, hword l.ip_word.1,
    by decide, hword l.hostname_word.1, by decide, hrest⟩

theorem text_newline : '\n' ∉ l.text := l.front_newline fun hm =>
  absurd (l.clientId_word.2 _ hm).1 (by decide)

theorem text_ne_nil : l.text ≠ [] := by
  unfold text front
  rw [← List.length_pos_iff, List.length_append, List.length_cons]
  omega

end LeaseLine

/-! ## Files -/

/-- A line as it stands in the file. -/
def IsLineOf (l : LeaseLine) (line : Str) : Prop := line = l.text ++ ['\n'] ∨ line = l.text

/-- The first piece of a line, and the part of the client id the others are cut from. -/
theorem IsLineOf.pieces {l : LeaseLine} {line : Str} (hl : IsLineOf l line) :
    ∃ rest tail, fgetsLines 512 line = l.front rest :: fgetsLines 512 tail ∧
      (∀ c ∈ l.front rest, c ≠ '\x00') ∧ Solid tail := by
  obtain ⟨nl, hnl, rfl⟩ : ∃ nl : Str, (nl = ['\n'] ∨ nl = []) ∧ line = l.text ++ nl := by
    rcases hl with rfl | rfl
    · exact ⟨_, Or.inl rfl, rfl⟩
    · exact ⟨_, Or.inr rfl, (List.append_nil _).symm⟩
  have hdrop : (l.text ++ nl).dropLast ⊆ l.text := by
    rcases hnl with rfl | rfl
    · rw [List.dropLast_concat]
      exact List.Subset.refl _
    · rw [List.append_nil]
      exact List.dropLast_subset _
  have hnul : ∀ c ∈ l.clientId ++ nl, c ≠ '\x00' := by
    intro c hc
    rcases List.mem_append.mp hc with hc | hc
    · exact (l.clientId_word.2 c hc).2
    · rcases hnl with rfl | rfl
      · rw [List.mem_singleton.mp hc]
        decide
      · cases hc
  have hsolid : Solid (l.clientId ++ nl) := by
    refine ⟨fun c hc => ?_, hnul⟩
    rcases hnl with rfl | rfl
    · rw [List.dropLast_concat] at hc
      exact (l.clientId_word.2 c hc).1
    · rw [List.append_nil] at hc
      exact (l.clientId_word.2 c (List.mem_of_mem_dropLast hc)).1
  have hfront := l.front_length
  have hline : l.text ++ nl = l.front [] ++ (l.clientId ++ nl) := by
    rw [LeaseLine.text, l.front_append, l.front_append, List.nil_append]
  obtain ⟨k, hk⟩ : ∃ k, 511 = (l.front []).length + k := ⟨511 - (l.front []).length, by omega⟩
  refine ⟨(l.clientId ++ nl).take k, (l.clientId ++ nl).drop k, ?_,
    l.front_nul fun c hc => hnul c (List.mem_of_mem_take hc), hsolid.suffix (List.drop_suffix _ _)⟩
  have hread := fgetsLines_oneLine (n := 510) (s := l.text ++ nl)
    (fun he => l.text_ne_nil (List.append_eq_nil_iff.mp he).1)
    fun hm => l.text_newline (hdrop hm)
  rw [hread, hline, show 510 + 1 = (l.front []).length + k from hk, List.take_length_add_append,
    List.drop_length_add_append, l.front_append, List.nil_append]

theorem mem_fileLines {ls : List LeaseLine} {ended : Bool} {line : Str}
    (h : line ∈ fileLines ls ended) : ∃ l ∈ ls, IsLineOf l line := by
  induction ls, ended using fileLines.induct with
  | case1 => cases h
  | case2 l ended =>
    rw [fileLines, List.mem_singleton] at h
    refine ⟨l, List.mem_singleton_self l, ?_⟩
    cases ended with
    | true => exact Or.inl h
    | false => exact Or.inr (h.trans (List.append_nil _))
  | case3 l ls ended hne ih =>
    rw [fileLines.eq_3 _ _ _ hne, List.mem_cons] at h
    rcases h with rfl | h
    · exact ⟨l, List.mem_cons_self, Or.inl rfl⟩
    · obtain ⟨l', hl', hline⟩ := ih h
      exact ⟨l', List.mem_cons_of_mem _ hl', hline⟩

/-- The file is read line by line. -/
theorem fgetsLines_file (ls : List LeaseLine) (ended : Bool) : fgetsLines 512 (fileText ls ended) =
    (fileLines ls ended).flatMap (fgetsLines 512) := by
  unfold fileText
  induction ls, ended using fileLines.induct with
  | case1 => rfl
  | case2 l ended => rw [fileLines, List.flatten_singleton, List.flatMap_singleton]
  | case3 l ls ended hne ih =>
    rw [fileLines.eq_3 _ _ _ hne, List.flatten_cons, List.flatMap_cons, ← ih, List.append_assoc]
    exact fgetsLines_line l.text_newline _

section Records

variable {κ : Type} (h : Host κ)

theorem parsedLines_append (a b : List Str) (w : World κ) : (parsedLines h (a ++ b) w).1 =
    (parsedLines h a w).1 ++ (parsedLines h b (parsedLines h a w).2).1 := by
  induction a generalizing w with
  | nil => rfl
  | cons line a ih =>
    simp only [List.cons_append, parsedLines, ih, List.append_assoc]

theorem parsedLines_none {lines : List Str}
    (hnone : ∀ line ∈ lines, ∀ w, (parseLeaseLine h (cstr line) w).1 = none) (w : World κ) :
    (parsedLines h lines w).1 = [] := by
  induction lines generalizing w with
  | nil => rfl
  | cons line lines ih =>
    rw [parsedLines]
    dsimp only
    rw [hnone line List.mem_cons_self, ih fun x hx => hnone x (List.mem_cons_of_mem _ hx)]
    rfl

/-- The pieces of one line give its record. -/
theorem IsLineOf.records {l : LeaseLine} {line : Str} (hl : IsLineOf l line) (w : World κ) :
    (parsedLines h (fgetsLines 512 line) w).1.map Dev.unseen = l.record.toList := by
  obtain ⟨rest, tail, hpieces, hnul, htail⟩ := hl.pieces
  have hcstr : cstr (l.front rest) = l.front rest :=
    List.takeWhile_eq_self_iff.mpr fun c hc => by simpa using hnul c hc
  have hnone : ∀ w, (parsedLines h (fgetsLines 512 tail) w).1 = [] :=
    parsedLines_none h fun p hp w => by
      rw [(htail.pieces hp).cstr, parseLeaseLine_solid h (htail.pieces hp)]
  rw [hpieces, parsedLines]
  dsimp only
  rw [hnone, hcstr, List.append_nil, ← l.parse_front h rest w]
  cases (parseLeaseLine h (l.front rest) w).1 <;> rfl

/-- The records of a file are those of the lines whose address is accepted, in order. -/
theorem fileText_records (ls : List LeaseLine) (ended : Bool) (w : World κ) :
    (parsedLines h (fgetsLines 512 (fileText ls ended)) w).1.map Dev.unseen =
      ls.filterMap LeaseLine.record := by
  rw [fgetsLines_file]
  induction ls, ended using fileLines.induct generalizing w with
  | case1 => rfl
  | case2 l ended =>
    have hl : IsLineOf l (l.text ++ if ended then ['\n'] else []) := by
      cases ended with
      | true => exact Or.inl rfl
      | false => exact Or.inr (List.append_nil _)
    rw [fileLines, List.flatMap_singleton, hl.records]
    cases hr : l.record <;> simp [hr]
  | case3 l ls ended hne ih =>
    have hl : IsLineOf l (l.text ++ ['\n']) := Or.inl rfl
    rw [fileLines.eq_3 _ _ _ hne, List.flatMap_cons, parsedLines_append, List.map_append,
      hl.records, ih]
    cases hr : l.record <;> simp [hr]

/-- **The lease file is read line by line.** The pieces `fgets` returns are those of the lines, in
    order; a piece behind the first of its line yields no record; and the records are those of the
    lines whose address is accepted, in order. -/
theorem lease_lines (ls : List LeaseLine) (ended : Bool) :
    fgetsLines 512 (fileText ls ended) = (fileLines ls ended).flatMap (fgetsLines 512) ∧
    (∀ line ∈ fileLines ls ended, ∀ piece ∈ (fgetsLines 512 line).tail, ∀ w : World κ,
      parseLeaseLine h (cstr piece) w = (none, w)) ∧
    ∀ w : World κ, (parsedLines h (fgetsLines 512 (fileText ls ended)) w).1.map Dev.unseen =
      ls.filterMap LeaseLine.record := by
  refine ⟨fgetsLines_file ls ended, fun line hline piece hpiece w => ?_, fileText_records h ls ended⟩
  obtain ⟨l, _, hl⟩ := mem_fileLines hline
  obtain ⟨rest, tail, hpieces, _, htail⟩ := hl.pieces
  rw [hpieces, List.tail_cons] at hpiece
  rw [(htail.pieces hpiece).cstr, parseLeaseLine_solid h (htail.pieces hpiece)]

end Records

end Netparent
