/-
  `np_mac_normalize` (nft.c) and the MAC addresses it accepts.

  The function walks the input once, collecting up to two hex digits per group and storing
  each finished group in a caller's 18-byte buffer. The model keeps the stores themselves, as
  (index, byte) pairs in the order they are made; `bufText` reads the buffer back.

  `Mac` is the type of normalized addresses: the text of six lower-case two-digit groups
  joined by colons, and whatever `npMacNormalize` accepts comes out as one
  (`npMacNormalize_canonical`).
-/
import Netparent.Text

namespace Netparent

/-! ## The text of an address -/

/-- `n + 1` two-digit groups, consecutive groups separated by one separator. -/
def groups (digit sep : Char → Bool) : Nat → Str → Bool
  | 0, [a, b] => digit a && digit b
  | n + 1, a :: b :: s :: rest => digit a && digit b && sep s && groups digit sep n rest
  | _, _ => false

def isColon (c : Char) : Bool := c == ':'

def isSep (c : Char) : Bool := c == ':' || c == '-'

/-- The canonical form: lower case, colons. -/
def isCanonical (t : Str) : Bool := groups isLowerHex isColon 5 t

/-- A MAC address in the form the daemon stores, compares and publishes. -/
structure Mac where
  text : Str
  canonical : isCanonical text = true
  deriving DecidableEq

theorem Mac.text_injective : Function.Injective Mac.text := by
  intro a b h
  cases a; cases b
  simpa using h

/-- Lower case, with `-` read as `:`. -/
def canonChar (c : Char) : Char := if c = '-' then ':' else tolower c

theorem isxdigit_isSep {c : Char} (h : isxdigit c = true) : isSep c = false := by
  have hall : ∀ d ∈ hexDigits, isSep d = false := by simp [hexDigits, lowerHexDigits, isSep]
  exact hall c (isxdigit_iff_mem.mp h)

theorem isSep_isxdigit {c : Char} (h : isSep c = true) : isxdigit c = false := by
  by_contra hx
  rw [isxdigit_isSep (by simpa using hx)] at h
  exact absurd h (by decide)

theorem canonChar_digit {c : Char} (h : isxdigit c = true) : canonChar c = tolower c := by
  have hne : c ≠ '-' := fun he => absurd (he ▸ h) (by decide)
  simp [canonChar, hne]

theorem canonChar_sep {c : Char} (h : isSep c = true) : canonChar c = ':' := by
  simp only [isSep, Bool.or_eq_true, beq_iff_eq] at h
  rcases h with rfl | rfl <;> decide

theorem groups_length {digit sep : Char → Bool} {n : Nat} {s : Str}
    (h : groups digit sep n s = true) : s.length = 3 * n + 2 := by
  induction n, s using groups.induct with
  | case1 a b => rfl
  | case2 n a b c rest ih =>
    simp only [groups, Bool.and_eq_true] at h
    have := ih h.2
    simp only [List.length_cons]
    omega
  | case3 n s h0 h1 => rw [groups] at h <;> simp_all

/-- Every byte of grouped text is a digit or a separator. -/
theorem groups_mem {digit sep : Char → Bool} {n : Nat} {s : Str}
    (h : groups digit sep n s = true) : ∀ c ∈ s, digit c = true ∨ sep c = true := by
  induction n, s using groups.induct with
  | case1 a b => simp_all [groups]
  | case2 n a b c rest ih =>
    simp only [groups, Bool.and_eq_true] at h
    have := ih h.2
    simp_all
  | case3 n s h0 h1 => rw [groups] at h <;> simp_all

/-- Weakening the two character tests. -/
theorem groups_mono {digit digit' sep sep' : Char → Bool} (hd : ∀ c, digit c = true → digit' c = true)
    (hs : ∀ c, sep c = true → sep' c = true) {n : Nat} {s : Str}
    (h : groups digit sep n s = true) : groups digit' sep' n s = true := by
  induction n, s using groups.induct with
  | case1 a b =>
    simp only [groups, Bool.and_eq_true] at h ⊢
    exact ⟨hd _ h.1, hd _ h.2⟩
  | case2 n a b c rest ih =>
    simp only [groups, Bool.and_eq_true] at h ⊢
    exact ⟨⟨⟨hd _ h.1.1.1, hd _ h.1.1.2⟩, hs _ h.1.2⟩, ih h.2⟩
  | case3 n s h0 h1 => rw [groups] at h <;> simp_all

/-- Any two-digit spelling has a canonical form. -/
theorem groups_canon {n : Nat} {s : Str} (h : groups isxdigit isSep n s = true) :
    groups isLowerHex isColon n (s.map canonChar) = true := by
  induction n, s using groups.induct with
  | case1 a b =>
    simp only [groups, Bool.and_eq_true] at h
    simp [groups, canonChar_digit h.1, canonChar_digit h.2, isLowerHex_tolower h.1,
      isLowerHex_tolower h.2]
  | case2 n a b c rest ih =>
    simp only [groups, Bool.and_eq_true] at h
    obtain ⟨⟨⟨ha, hb⟩, hc⟩, hr⟩ := h
    simp [groups, canonChar_digit ha, canonChar_digit hb, canonChar_sep hc,
      isLowerHex_tolower ha, isLowerHex_tolower hb, isColon, ih hr]
  | case3 n s h0 h1 => rw [groups] at h <;> simp_all

theorem canonical_groups {n : Nat} {s : Str} (h : groups isLowerHex isColon n s = true) :
    groups isxdigit isSep n s = true :=
  groups_mono (fun _ => isxdigit_of_isLowerHex) (fun c hc => by simp_all [isColon, isSep]) h

/-- What holds of the digits and separators holds of every byte of a spelling. -/
theorem spelling_forall {P : Char → Prop} (hall : ∀ d ∈ ':' :: '-' :: hexDigits, P d) {n : Nat}
    {s : Str} (h : groups isxdigit isSep n s = true) : ∀ c ∈ s, P c := by
  intro c hc
  refine hall c ?_
  rcases groups_mem h c hc with hd | hs
  · exact List.mem_cons_of_mem _ (List.mem_cons_of_mem _ (isxdigit_iff_mem.mp hd))
  · have hsep : c = ':' ∨ c = '-' := by simpa [isSep] using hs
    rcases hsep with rfl | rfl
    · exact List.mem_cons_self
    · exact List.mem_cons_of_mem _ List.mem_cons_self

theorem canonChar_canonical {c : Char} (h : isLowerHex c = true ∨ isColon c = true) :
    canonChar c = c := by
  rcases h with h | h
  · rw [canonChar_digit (isxdigit_of_isLowerHex h), tolower_of_isLowerHex h]
  · simp only [isColon, beq_iff_eq] at h
    subst h
    decide

/-- Lower-casing colon-separated groups makes them canonical. -/
theorem groups_lower {n : Nat} {s : Str} (h : groups isxdigit isColon n s = true) :
    groups isLowerHex isColon n (s.map tolower) = true := by
  have hsep : ∀ c, isColon c = true → isSep c = true := fun c hc => by simp_all [isColon, isSep]
  have hmap : s.map tolower = s.map canonChar := List.map_congr_left fun c hc => by
    rcases groups_mem h c hc with hd | hd
    · exact (canonChar_digit hd).symm
    · simp only [isColon, beq_iff_eq] at hd
      subst hd
      decide
  rw [hmap]
  exact groups_canon (groups_mono (fun _ hd => hd) hsep h)

/-- Canonical text is its own canonical form. -/
theorem canonical_map {n : Nat} {s : Str} (h : groups isLowerHex isColon n s = true) :
    s.map canonChar = s := by
  have hid : s.map canonChar = s.map id :=
    List.map_congr_left fun c hc => canonChar_canonical (groups_mem h c hc)
  rw [hid, List.map_id]

theorem canonical_hex {n : Nat} {s : Str} (h : groups isLowerHex isColon n s = true) :
    groups isxdigit isColon n s = true :=
  groups_mono (fun _ => isxdigit_of_isLowerHex) (fun _ hc => hc) h

theorem canonical_lower {n : Nat} {s : Str} (h : groups isLowerHex isColon n s = true) :
    s.map tolower = s := by
  have hid : s.map tolower = s.map id := List.map_congr_left fun c hc => by
    rcases groups_mem h c hc with hd | hs
    · exact tolower_of_isLowerHex hd
    · simp only [isColon, beq_iff_eq] at hs
      subst hs
      decide
  rw [hid, List.map_id]

/-- No byte of canonical text is the NUL that ends a C string. -/
theorem canonical_no_nul {t : Str} (h : isCanonical t = true) : ∀ c ∈ t, c ≠ '\x00' :=
  spelling_forall (by simp [hexDigits, lowerHexDigits]) (canonical_groups h)

theorem cstr_canonical {t : Str} (h : isCanonical t = true) (rest : Str) :
    cstr (t ++ '\x00' :: rest) = t := by
  have hp : ∀ c ∈ t, (c != '\x00') = true := fun c hc => by
    simpa using canonical_no_nul h c hc
  simp [cstr, List.takeWhile_append_of_pos hp]

/-! ## np_mac_normalize -/

/-- The locals of `np_mac_normalize`'s loop. `out` lists the stores made into the output
    buffer, in order. -/
structure MacState where
  bytes : Nat := 0
  hexcount : Nat := 0
  hex : Char × Char := ('\x00', '\x00')
  out : List (Nat × Char) := []

/-- A one-digit group gets a leading zero. -/
def MacState.padded (st : MacState) : Char × Char :=
  if st.hexcount = 1 then ('0', st.hex.1) else st.hex

/-- One character of the input. -/
def macStep (st : MacState) (c : Char) : Option MacState :=
  if isxdigit c then
    if st.hexcount ≥ 2 then none
    else some { st with
      hex := if st.hexcount = 0 then (tolower c, st.hex.2) else (st.hex.1, tolower c)
      hexcount := st.hexcount + 1 }
  else if c = ':' ∨ c = '-' then
    if st.hexcount = 0 then none
    else if st.bytes ≥ 6 then none
    else some
      { bytes := st.bytes + 1
        hexcount := 0
        hex := st.padded
        out := st.out ++ [(st.bytes * 3 + 0, st.padded.1), (st.bytes * 3 + 1, st.padded.2)] ++
          if st.bytes < 5 then [(st.bytes * 3 + 2, ':')] else [] }
  else if isspace c then some st
  else none

/-- After the loop: a pending group is stored, and six groups are required. -/
def macFinish (st : MacState) : Option (List (Nat × Char)) :=
  if st.hexcount > 0 then
    if st.bytes ≥ 6 then none
    else if st.bytes + 1 ≠ 6 then none
    else some (st.out ++
      [(st.bytes * 3 + 0, st.padded.1), (st.bytes * 3 + 1, st.padded.2)] ++ [(17, '\x00')])
  else if st.bytes ≠ 6 then none
  else some (st.out ++ [(17, '\x00')])

def macLoop : MacState → Str → Option (List (Nat × Char))
  | st, [] => macFinish st
  | st, c :: cs => match macStep st c with
      | none => none
      | some st' => macLoop st' cs

/-- The buffer after a sequence of stores: each index holds the last byte stored there. -/
def readBuf (size : Nat) (out : List (Nat × Char)) : Str :=
  (List.range size).map fun i => (out.reverse.lookup i).getD '\x00'

/-- The C string in the 18-byte output buffer. -/
def bufText (out : List (Nat × Char)) : Str := cstr (readBuf 18 out)

def npMacNormalize (s : Str) : Option Str := (macLoop {} s).map bufText

/-! ## The buffer is filled in order -/

/-- The first `n` indices have been stored, once each and in order. -/
def Filled (n : Nat) (out : List (Nat × Char)) : Prop := out.map Prod.fst = List.range n

theorem Filled.append_one {n : Nat} {out : List (Nat × Char)} (h : Filled n out) (c : Char) :
    Filled (n + 1) (out ++ [(n, c)]) := by
  simp only [Filled, List.map_append, List.map_cons, List.map_nil, List.range_succ] at h ⊢
  rw [h]

theorem Filled.length {n : Nat} {out : List (Nat × Char)} (h : Filled n out) : out.length = n := by
  simpa using congrArg List.length h

theorem lookup_of_nodup {out : List (Nat × Char)} (hn : (out.map Prod.fst).Nodup)
    {i : Nat} {c : Char} (hm : (i, c) ∈ out) : out.lookup i = some c := by
  induction out with
  | nil => simp at hm
  | cons p ps ih =>
    obtain ⟨j, d⟩ := p
    rw [List.map_cons, List.nodup_cons] at hn
    rcases List.mem_cons.mp hm with h | h
    · cases h; simp
    · have hne : i ≠ j := by
        rintro rfl
        exact hn.1 (List.mem_map.mpr ⟨_, h, rfl⟩)
      rw [List.lookup_cons, beq_eq_false_iff_ne.mpr hne]
      exact ih hn.2 h

/-- Reading back a buffer filled in order gives the bytes stored, in order. -/
theorem readBuf_filled {n : Nat} {out : List (Nat × Char)} (h : Filled n out) :
    readBuf n out = out.map Prod.snd := by
  have hlen := h.length
  refine List.ext_getElem (by simp [readBuf, hlen]) fun i h1 h2 => ?_
  have hi : i < out.length := by simpa using h2
  have hfst : out[i].1 = i := by
    have := List.getElem_map Prod.fst (l := out) (i := i) (h := by simpa using hi)
    rw [← this]
    simp [show out.map Prod.fst = List.range n from h]
  have hmem : (i, out[i].2) ∈ out.reverse := by
    rw [List.mem_reverse]
    exact (Prod.ext hfst rfl : out[i] = (i, out[i].2)) ▸ List.getElem_mem hi
  have hnd : (out.reverse.map Prod.fst).Nodup := by
    rw [List.map_reverse, List.nodup_reverse, show out.map Prod.fst = List.range n from h]
    exact List.nodup_range
  simp [readBuf, lookup_of_nodup hnd hmem]

/-! ## Every accepted input is normalized to a canonical address -/

/-- What the loop keeps: the stored bytes are the first `bytes` groups of a canonical address
    (whatever completes them makes one), and the pending digits are lower-case hex. -/
structure MacInv (st : MacState) : Prop where
  bytes_le : st.bytes ≤ 6
  hexcount_le : st.hexcount ≤ 2
  hex_fst : 1 ≤ st.hexcount → isLowerHex st.hex.1 = true
  hex_snd : st.hexcount = 2 → isLowerHex st.hex.2 = true
  filled : Filled (min (3 * st.bytes) 17) st.out
  partialText : st.bytes < 6 → ∀ rest, groups isLowerHex isColon (5 - st.bytes) rest = true →
    isCanonical (st.out.map Prod.snd ++ rest) = true
  fullText : st.bytes = 6 → isCanonical (st.out.map Prod.snd) = true

theorem MacInv.init : MacInv {} where
  bytes_le := by decide
  hexcount_le := by decide
  hex_fst := by decide
  hex_snd := by decide
  filled := rfl
  partialText := fun _ _ h => h
  fullText := by decide

theorem MacInv.padded_lower {st : MacState} (hi : MacInv st) (h : 0 < st.hexcount) :
    isLowerHex st.padded.1 = true ∧ isLowerHex st.padded.2 = true := by
  have hle := hi.hexcount_le
  unfold MacState.padded
  split
  · exact ⟨rfl, hi.hex_fst h⟩
  · exact ⟨hi.hex_fst h, hi.hex_snd (by omega)⟩

/-- Storing the pending group, without a colon after it, completes the sixth group. -/
theorem MacInv.last_group {st : MacState} (hi : MacInv st) (h : 0 < st.hexcount)
    (hb : st.bytes = 5) :
    Filled 17 (st.out ++ [(st.bytes * 3 + 0, st.padded.1), (st.bytes * 3 + 1, st.padded.2)]) ∧
    isCanonical ((st.out ++
      [(st.bytes * 3 + 0, st.padded.1), (st.bytes * 3 + 1, st.padded.2)]).map Prod.snd) = true := by
  obtain ⟨hx, hy⟩ := hi.padded_lower h
  constructor
  · have hf := hi.filled
    rw [hb] at hf ⊢
    simpa using (hf.append_one st.padded.1).append_one st.padded.2
  · have ht := hi.partialText (by omega) [st.padded.1, st.padded.2] (by simp [hb, groups, hx, hy])
    simpa using ht

theorem macStep_inv {st st' : MacState} {c : Char} (hi : MacInv st)
    (h : macStep st c = some st') : MacInv st' := by
  unfold macStep at h
  split at h
  case isTrue hx =>
    -- a digit: it becomes the pending group's first or second
    split at h
    · cases h
    · cases h
      have hlow := isLowerHex_tolower hx
      refine ⟨hi.bytes_le, by dsimp only; omega, ?_, ?_, hi.filled, hi.partialText, hi.fullText⟩
      · intro _
        dsimp only
        split
        · exact hlow
        · exact hi.hex_fst (by omega)
      · intro h2
        dsimp only at h2 ⊢
        rw [if_neg (by omega)]
        exact hlow
  case isFalse hx =>
    split at h
    · -- a separator: the pending group is stored
      split at h
      · cases h
      split at h
      · cases h
      rename_i hs hc hb
      cases h
      have hpos : 0 < st.hexcount := by omega
      by_cases h5 : st.bytes = 5
      · obtain ⟨hf, hcan⟩ := hi.last_group hpos h5
        refine ⟨by dsimp only; omega, by simp, by simp, by simp, ?_, ?_, ?_⟩
        · simpa [h5] using hf
        · intro hlt; dsimp only at hlt; omega
        · intro _; simpa [h5] using hcan
      · have hlt : st.bytes < 5 := by have := hi.bytes_le; omega
        obtain ⟨hx', hy'⟩ := hi.padded_lower hpos
        refine ⟨by dsimp only; omega, by simp, by simp, by simp, ?_, ?_, ?_⟩
        · have hf := hi.filled
          rw [show min (3 * st.bytes) 17 = st.bytes * 3 by omega] at hf
          have := ((hf.append_one st.padded.1).append_one st.padded.2).append_one ':'
          dsimp only
          rw [if_pos hlt, show min (3 * (st.bytes + 1)) 17 = st.bytes * 3 + 1 + 1 + 1 by omega]
          simpa using this
        · intro _ rest hr
          dsimp only at hr ⊢
          have hg : groups isLowerHex isColon (5 - st.bytes)
              (st.padded.1 :: st.padded.2 :: ':' :: rest) = true := by
            rw [show 5 - st.bytes = (5 - (st.bytes + 1)) + 1 by omega]
            simp only [groups, hx', hy', isColon, hr, beq_self_eq_true, Bool.and_self]
          simpa [hlt] using hi.partialText (by omega) _ hg
        · intro h6; dsimp only at h6; omega
    · split at h
      · cases h; exact hi
      · cases h

/-- The buffer an accepted input leaves: all 18 bytes, stored once each and in order, a
    canonical address and its NUL. -/
theorem macLoop_spec {st : MacState} (hi : MacInv st) {s : Str} {out : List (Nat × Char)}
    (h : macLoop st s = some out) :
    Filled 18 out ∧ ∃ t, isCanonical t = true ∧ out.map Prod.snd = t ++ ['\x00'] := by
  induction s generalizing st with
  | nil =>
    unfold macLoop macFinish at h
    split at h
    · split at h
      · cases h
      · split at h
        · cases h
        · cases h
          rename_i hpos _ hb
          obtain ⟨hf, hcan⟩ := hi.last_group hpos (by omega)
          exact ⟨hf.append_one _, _, hcan, by simp⟩
    · split at h
      · cases h
      · cases h
        rename_i hb
        have hb6 : st.bytes = 6 := by omega
        have hf := hi.filled
        rw [hb6] at hf
        exact ⟨hf.append_one _, _, hi.fullText hb6, by simp⟩
  | cons c cs ih =>
    simp only [macLoop] at h
    split at h
    · cases h
    · next st' hst => exact ih (macStep_inv hi hst) h

theorem bufText_spec {out : List (Nat × Char)} {t : Str} (hf : Filled 18 out)
    (ht : isCanonical t = true) (ho : out.map Prod.snd = t ++ ['\x00']) : bufText out = t := by
  rw [bufText, readBuf_filled hf, ho]
  exact cstr_canonical ht []

theorem npMacNormalize_canonical {s t : Str} (h : npMacNormalize s = some t) :
    isCanonical t = true := by
  unfold npMacNormalize at h
  obtain ⟨out, hout, rfl⟩ := Option.map_eq_some_iff.mp h
  obtain ⟨hf, u, hu, ho⟩ := macLoop_spec MacInv.init hout
  rw [bufText_spec hf hu ho]
  exact hu

/-- `np_mac_normalize` as a map into addresses. -/
def normMac (s : Str) : Option Mac :=
  match h : npMacNormalize s with
  | none => none
  | some t => some ⟨t, npMacNormalize_canonical h⟩

theorem normMac_eq_some {s : Str} {m : Mac} :
    normMac s = some m ↔ npMacNormalize s = some m.text := by
  unfold normMac
  split
  · next h => simp [h]
  · next t h =>
    constructor
    · intro he; cases he; exact h
    · intro he
      exact congrArg some (Mac.text_injective (Option.some.inj (h.symm.trans he)))

theorem normMac_eq_none {s : Str} : normMac s = none ↔ npMacNormalize s = none := by
  unfold normMac
  split <;> simp_all

/-! ## Digits -/

theorem macStep_first {st : MacState} {c : Char} (h : isxdigit c = true) (h0 : st.hexcount = 0) :
    macStep st c = some { st with hex := (tolower c, st.hex.2), hexcount := 1 } := by
  simp [macStep, h, h0]

theorem macStep_second {st : MacState} {c : Char} (h : isxdigit c = true) (h1 : st.hexcount = 1) :
    macStep st c = some { st with hex := (st.hex.1, tolower c), hexcount := 2 } := by
  simp [macStep, h, h1]

example : npMacNormalize "AA-b:0c:11:22:33".toList = some "aa:0b:0c:11:22:33".toList := by decide

end Netparent
