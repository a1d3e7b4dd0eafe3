/-
  The language `np_mac_normalize` accepts, and what it makes of it.

  White space is skipped wherever it stands (`macLoop_despaced`). What is left has to be six groups of
  one or two hex digits with one separator between them, and perhaps one more at the end
  (`Spells`). The loop accepts nothing else (`spells_of_macLoop`) and all of that (`macLoop_spells`),
  and it returns the groups padded to two digits, so two inputs come out alike exactly when they
  denote the same octets (`mac_grammar`). Six two-digit groups are a spelling, of their
  lower-case colon form (`npMacNormalize_groups`).
-/
import Netparent.Mac

namespace Netparent

/-! ## The grammar -/

/-- A string without its white space. -/
def despace (s : Str) : Str := s.filter fun c => !isspace c

/-- One or two hex digits. -/
def IsGroup (g : Str) : Prop := (g.length = 1 ∨ g.length = 2) ∧ ∀ c ∈ g, isxdigit c = true

/-- A text spells a list of groups: consecutive groups have one separator between them, and the
    last may have one behind it. -/
inductive Spells : List Str → Str → Prop
  | last {g : Str} : IsGroup g → Spells [g] g
  | trailing {g : Str} {sep : Char} : IsGroup g → isSep sep = true → Spells [g] (g ++ [sep])
  | cons {g : Str} {sep : Char} {gs : List Str} {t : Str} : IsGroup g → isSep sep = true →
      Spells gs t → Spells (g :: gs) (g ++ sep :: t)

/-- A group with two lower-case digits. -/
def padGroup (g : Str) : Str := if g.length = 1 then '0' :: g.map tolower else g.map tolower

/-- The padded groups, joined by colons. -/
def canonText : List Str → Str
  | [] => []
  | [g] => padGroup g
  | g :: gs => padGroup g ++ ':' :: canonText gs

/-- The value of a hex digit. -/
def hexValue (c : Char) : Nat := lowerHexDigits.idxOf (tolower c)

/-- The octet a group denotes. -/
def octet (g : Str) : Nat := g.foldl (fun n c => 16 * n + hexValue c) 0

theorem Spells.groups {gs : List Str} {t : Str} (h : Spells gs t) : ∀ g ∈ gs, IsGroup g := by
  induction h with
  | last hg => simpa using hg
  | trailing hg _ => simpa using hg
  | cons hg _ _ ih => simpa using ⟨hg, ih⟩

theorem Spells.ne_nil {gs : List Str} {t : Str} (h : Spells gs t) : gs ≠ [] := by
  cases h <;> simp

/-! ## Groups -/

theorem IsGroup.cases {g : Str} (h : IsGroup g) :
    (∃ a, g = [a] ∧ isxdigit a = true) ∨ ∃ a b, g = [a, b] ∧ isxdigit a = true ∧ isxdigit b = true := by
  obtain ⟨hlen | hlen, hall⟩ := h
  · obtain ⟨a, rfl⟩ := List.length_eq_one_iff.mp hlen
    exact Or.inl ⟨a, rfl, hall a (by simp)⟩
  · obtain ⟨a, b, rfl⟩ := List.length_eq_two.mp hlen
    exact Or.inr ⟨a, b, rfl, hall a (by simp), hall b (by simp)⟩

/-- Two digits, and the octet they are. -/
theorem IsGroup.padded {g : Str} (h : IsGroup g) : ∃ x y, padGroup g = [x, y] ∧
    isLowerHex x = true ∧ isLowerHex y = true ∧
    octet g = 16 * lowerHexDigits.idxOf x + lowerHexDigits.idxOf y := by
  rcases h.cases with ⟨a, rfl, ha⟩ | ⟨a, b, rfl, ha, hb⟩
  · refine ⟨'0', tolower a, rfl, by decide, isLowerHex_tolower ha, ?_⟩
    have hzero : lowerHexDigits.idxOf '0' = 0 := by decide
    simp [octet, hexValue, hzero]
  · refine ⟨tolower a, tolower b, rfl, isLowerHex_tolower ha, isLowerHex_tolower hb, ?_⟩
    simp [octet, hexValue]

/-- The padded digits say as much as the octet. -/
theorem padGroup_eq_iff {g g' : Str} (h : IsGroup g) (h' : IsGroup g') :
    padGroup g = padGroup g' ↔ octet g = octet g' := by
  obtain ⟨x, y, hp, hx, hy, ho⟩ := h.padded
  obtain ⟨x', y', hp', hx', hy', ho'⟩ := h'.padded
  have hlt : ∀ c, isLowerHex c = true → lowerHexDigits.idxOf c < 16 := fun c hc =>
    List.idxOf_lt_length_of_mem (isLowerHex_iff_mem.mp hc)
  have hinj : ∀ c d, isLowerHex c = true → lowerHexDigits.idxOf c = lowerHexDigits.idxOf d → c = d :=
    fun c d hc hcd => (List.idxOf_inj (isLowerHex_iff_mem.mp hc)).mp hcd
  have hyl := hlt y hy
  have hyl' := hlt y' hy'
  rw [hp, hp', ho, ho']
  constructor
  · intro he
    rw [List.cons.injEq, List.cons.injEq] at he
    rw [he.1, he.2.1]
  · intro he
    rw [hinj x x' hx (by omega), hinj y y' hy (by omega)]

theorem canonText_cons {g : Str} {gs : List Str} (h : gs ≠ []) :
    canonText (g :: gs) = padGroup g ++ ':' :: canonText gs := by
  cases gs with
  | nil => exact absurd rfl h
  | cons g' gs => rfl

/-- Spellings of equally many groups have one text exactly when they denote the same octets. -/
theorem canonText_eq_iff {gs gs' : List Str} (h : ∀ g ∈ gs, IsGroup g) (h' : ∀ g ∈ gs', IsGroup g)
    (hlen : gs.length = gs'.length) : canonText gs = canonText gs' ↔ gs.map octet = gs'.map octet := by
  induction gs generalizing gs' with
  | nil =>
    rw [List.length_eq_zero_iff.mp hlen.symm]
    exact iff_of_true rfl rfl
  | cons g gs ih =>
    cases gs' with
    | nil => cases hlen
    | cons g' gs' =>
      have hg := h g List.mem_cons_self
      have hg' := h' g' List.mem_cons_self
      have hhead := padGroup_eq_iff hg hg'
      have hlen' : gs.length = gs'.length := Nat.succ.inj hlen
      obtain ⟨x, y, hp, _⟩ := hg.padded
      obtain ⟨x', y', hp', _⟩ := hg'.padded
      rw [hp, hp'] at hhead
      rw [List.map_cons, List.map_cons, List.cons.injEq, ← hhead]
      by_cases hnil : gs = []
      · have hnil' : gs' = [] := List.length_eq_zero_iff.mp (by rw [← hlen', hnil]; rfl)
        subst hnil hnil'
        rw [canonText, canonText, hp, hp']
        simp
      · have hnil' : gs' ≠ [] := fun he => hnil (List.length_eq_zero_iff.mp (by rw [hlen', he]; rfl))
        rw [← ih (fun x hx => h x (List.mem_cons_of_mem _ hx))
          (fun x hx => h' x (List.mem_cons_of_mem _ hx)) hlen', canonText_cons hnil,
          canonText_cons hnil', hp, hp']
        simp [and_assoc]

/-! ## White space -/

theorem isspace_not {c : Char} (h : isspace c = true) :
    isxdigit c = false ∧ ¬ (c = ':' ∨ c = '-') := by
  have hall : ∀ d ∈ [' ', '\t', '\n', '\x0b', '\x0c', '\r'], isxdigit d = false ∧
      ¬ (d = ':' ∨ d = '-') := by
    simp [isxdigit, hexDigits, lowerHexDigits]
  exact hall c (List.contains_iff_mem.mp h)

theorem macStep_space (st : MacState) {c : Char} (h : isspace c = true) : macStep st c = some st := by
  obtain ⟨hx, hs⟩ := isspace_not h
  rw [macStep, if_neg (by simp [hx]), if_neg hs, if_pos h]

theorem macLoop_despaced (st : MacState) (s : Str) : macLoop st s = macLoop st (despace s) := by
  induction s generalizing st with
  | nil => rfl
  | cons c cs ih =>
    by_cases hc : isspace c = true
    · have hskip : despace (c :: cs) = despace cs := List.filter_cons_of_neg (by simp [hc])
      rw [macLoop, macStep_space st hc, hskip]
      exact ih st
    · have hkeep : despace (c :: cs) = c :: despace cs := List.filter_cons_of_pos (by simp [hc])
      rw [hkeep, macLoop, macLoop]
      cases macStep st c with
      | none => rfl
      | some st' => exact ih st'

theorem mem_despace {s : Str} {c : Char} (h : c ∈ despace s) : isspace c = false := by
  simpa using (List.mem_filter.mp h).2

/-! ## Nothing else is accepted -/

/-- `pend` are the digits of the group being read. -/
def Pending (st : MacState) (pend : Str) : Prop :=
  pend.length = st.hexcount ∧ ∀ c ∈ pend, isxdigit c = true

theorem Pending.isGroup {st : MacState} {pend : Str} (h : Pending st pend) (h0 : st.hexcount ≠ 0)
    (h2 : st.hexcount ≤ 2) : IsGroup pend :=
  ⟨by have := h.1; omega, h.2⟩

/-- What the loop still accepts after the pending digits: nothing once six groups are stored, and
    else a spelling of the missing ones. -/
theorem spells_of_macLoop {st : MacState} {pend t : Str} (hp : Pending st pend) (h2 : st.hexcount ≤ 2)
    (ht : ∀ c ∈ t, isspace c = false) {out : List (Nat × Char)} (h : macLoop st t = some out) :
    (st.bytes = 6 ∧ pend = [] ∧ t = []) ∨
      ∃ gs, Spells gs (pend ++ t) ∧ gs.length + st.bytes = 6 := by
  induction t generalizing st pend with
  | nil =>
    rw [macLoop, macFinish] at h
    split at h
    · next hpos =>
      split at h
      · cases h
      · split at h
        · cases h
        · refine Or.inr ⟨[pend], ?_, ?_⟩
          · rw [List.append_nil]
            exact Spells.last (hp.isGroup (by omega) h2)
          · rw [List.length_singleton]
            omega
    · split at h
      · cases h
      · have hlen := hp.1
        exact Or.inl ⟨by omega, List.length_eq_zero_iff.mp (by omega), rfl⟩
  | cons c cs ih =>
    have hcs : ∀ d ∈ cs, isspace d = false := fun d hd => ht d (List.mem_cons_of_mem _ hd)
    rw [macLoop, macStep] at h
    by_cases hx : isxdigit c = true
    · -- a digit joins the pending ones
      rw [if_pos hx] at h
      by_cases h2' : st.hexcount ≥ 2
      · rw [if_pos h2'] at h
        cases h
      · rw [if_neg h2'] at h
        have hp' : Pending { st with
            hex := if st.hexcount = 0 then (tolower c, st.hex.2) else (st.hex.1, tolower c)
            hexcount := st.hexcount + 1 } (pend ++ [c]) := by
          refine ⟨by rw [List.length_append, hp.1]; rfl, fun d hd => ?_⟩
          rcases List.mem_append.mp hd with hd | hd
          · exact hp.2 d hd
          · rwa [List.mem_singleton.mp hd]
        rcases ih hp' (by dsimp only; omega) hcs h with ⟨_, hnil, _⟩ | ⟨gs, hgs, hlen⟩
        · simp at hnil
        · exact Or.inr ⟨gs, by simpa using hgs, hlen⟩
    · rw [if_neg hx] at h
      by_cases hs : c = ':' ∨ c = '-'
      · -- a separator ends the group
        rw [if_pos hs] at h
        have hsep : isSep c = true := by simpa [isSep] using hs
        by_cases h0 : st.hexcount = 0
        · rw [if_pos h0] at h
          cases h
        · rw [if_neg h0] at h
          by_cases hb : st.bytes ≥ 6
          · rw [if_pos hb] at h
            cases h
          · rw [if_neg hb] at h
            have hgroup := hp.isGroup h0 h2
            have hp' : ∀ st' : MacState, st'.hexcount = 0 → Pending st' [] := fun st' hst' =>
              ⟨hst'.symm, fun _ hd => absurd hd List.not_mem_nil⟩
            rcases ih (hp' _ rfl) (Nat.zero_le _) hcs h with ⟨hb6, _, hnil⟩ | ⟨gs, hgs, hlen⟩
            · subst hnil
              exact Or.inr ⟨[pend], Spells.trailing hgroup hsep, by simpa [add_comm] using hb6⟩
            · refine Or.inr ⟨pend :: gs, Spells.cons hgroup hsep hgs, ?_⟩
              dsimp only at hlen
              rw [List.length_cons]
              omega
      · rw [if_neg hs, if_neg (by rw [ht c List.mem_cons_self]; decide)] at h
        cases h

/-! ## All of it is accepted -/

/-- The state in which a group has been read. -/
def readGroup (st : MacState) (g : Str) : MacState :=
  { st with
    hexcount := g.length
    hex := if g.length = 1 then (tolower (g.headD '0'), st.hex.2)
      else (tolower (g.headD '0'), tolower (g.tail.headD '0')) }

/-- The digits of a group, from a state without pending ones. -/
theorem macLoop_group {st : MacState} (h0 : st.hexcount = 0) {g : Str} (hg : IsGroup g) (t : Str) :
    macLoop st (g ++ t) = macLoop (readGroup st g) t ∧
      padGroup g = [(readGroup st g).padded.1, (readGroup st g).padded.2] := by
  rcases hg.cases with ⟨a, rfl, ha⟩ | ⟨a, b, rfl, ha, hb⟩
  · refine ⟨?_, rfl⟩
    rw [List.singleton_append, macLoop, macStep_first ha h0]
    rfl
  · refine ⟨?_, rfl⟩
    rw [List.cons_append, List.singleton_append, macLoop, macStep_first ha h0]
    dsimp only
    rw [macLoop, macStep_second hb rfl]
    rfl

theorem macStep_close (st : MacState) {sep : Char} (hs : isSep sep = true) (h0 : st.hexcount ≠ 0)
    (hb : st.bytes < 6) : macStep st sep = some
      { bytes := st.bytes + 1
        hexcount := 0
        hex := st.padded
        out := st.out ++ [(st.bytes * 3 + 0, st.padded.1), (st.bytes * 3 + 1, st.padded.2)] ++
          if st.bytes < 5 then [(st.bytes * 3 + 2, ':')] else [] } := by
  have hor : sep = ':' ∨ sep = '-' := by simpa [isSep] using hs
  rw [macStep, if_neg (by simp [isSep_isxdigit hs]), if_pos hor, if_neg h0, if_neg (by omega)]

theorem macFinish_last {st : MacState} (h0 : st.hexcount ≠ 0) (hb : st.bytes = 5) :
    macFinish st = some (st.out ++ [(15, st.padded.1), (16, st.padded.2)] ++ [(17, '\x00')]) := by
  rw [macFinish, if_pos (by omega), if_neg (by omega), if_neg (by omega), hb]

theorem macFinish_full {st : MacState} (h0 : st.hexcount = 0) (hb : st.bytes = 6) :
    macFinish st = some (st.out ++ [(17, '\x00')]) := by
  rw [macFinish, if_neg (by omega), if_neg (by omega)]

/-- A spelling of the missing groups is accepted, and the buffer gets their canonical text. -/
theorem macLoop_spells {gs : List Str} {t : Str} (h : Spells gs t) (st : MacState)
    (h0 : st.hexcount = 0) (hb : st.bytes + gs.length = 6) (hf : Filled (st.bytes * 3) st.out) :
    ∃ out, macLoop st t = some out ∧ Filled 18 out ∧
      out.map Prod.snd = st.out.map Prod.snd ++ canonText gs ++ ['\x00'] := by
  have hcount : ∀ {g : Str} (st : MacState), IsGroup g → (readGroup st g).hexcount ≠ 0 := by
    intro g st hg
    change g.length ≠ 0
    have := hg.1
    omega
  induction h generalizing st with
  | @last g hg =>
    have hb5 : st.bytes = 5 := by simpa using hb
    obtain ⟨hrun, hpad⟩ := macLoop_group h0 hg []
    rw [List.append_nil] at hrun
    refine ⟨_, hrun.trans (macFinish_last (hcount st hg) hb5), ?_, ?_⟩
    · rw [hb5] at hf
      simpa [readGroup] using ((hf.append_one (readGroup st g).padded.1).append_one
        (readGroup st g).padded.2).append_one '\x00'
    · rw [canonText, hpad]
      simp [readGroup]
  | @trailing g sep hg hs =>
    have hb5 : st.bytes = 5 := by simpa using hb
    obtain ⟨hrun, hpad⟩ := macLoop_group h0 hg [sep]
    have hclose := macStep_close (readGroup st g) hs (hcount st hg) (by change st.bytes < 6; omega)
    refine ⟨st.out ++ [(15, (readGroup st g).padded.1), (16, (readGroup st g).padded.2)] ++
      [(17, '\x00')], ?_, ?_, ?_⟩
    · rw [hrun, macLoop, hclose]
      dsimp only
      rw [macLoop, macFinish_full rfl (by change st.bytes + 1 = 6; omega)]
      simp [readGroup, hb5]
    · rw [hb5] at hf
      simpa using ((hf.append_one (readGroup st g).padded.1).append_one
        (readGroup st g).padded.2).append_one '\x00'
    · rw [canonText, hpad]
      simp
  | @cons g sep gs t hg hs hgs ih =>
    have hlen := List.length_pos_of_ne_nil hgs.ne_nil
    rw [List.length_cons] at hb
    obtain ⟨hrun, hpad⟩ := macLoop_group h0 hg (sep :: t)
    have hclose := macStep_close (readGroup st g) hs (hcount st hg) (by change st.bytes < 6; omega)
    rw [if_pos (show (readGroup st g).bytes < 5 by change st.bytes < 5; omega)] at hclose
    have hfill := ((hf.append_one (readGroup st g).padded.1).append_one
      (readGroup st g).padded.2).append_one ':'
    obtain ⟨out, hout, hfilled, htext⟩ := ih
      { bytes := st.bytes + 1
        hexcount := 0
        hex := (readGroup st g).padded
        out := st.out ++ [(st.bytes * 3 + 0, (readGroup st g).padded.1),
          (st.bytes * 3 + 1, (readGroup st g).padded.2)] ++ [(st.bytes * 3 + 2, ':')] }
      rfl (by dsimp only; omega)
      (by
        dsimp only
        rw [show (st.bytes + 1) * 3 = st.bytes * 3 + 1 + 1 + 1 by omega]
        simpa using hfill)
    refine ⟨out, ?_, hfilled, ?_⟩
    · rw [hrun, macLoop, hclose]
      exact hout
    · rw [htext, canonText_cons hgs.ne_nil, hpad]
      simp

/-- Two-digit groups are a spelling. -/
theorem spells_of_groups {n : Nat} {s : Str} (h : groups isxdigit isSep n s = true) :
    ∃ gs, Spells gs s ∧ gs.length = n + 1 ∧ canonText gs = s.map canonChar := by
  have hpair : ∀ {a b : Char}, isxdigit a = true → isxdigit b = true →
      IsGroup [a, b] ∧ padGroup [a, b] = [canonChar a, canonChar b] := fun ha hb =>
    ⟨⟨Or.inr rfl, by simp [ha, hb]⟩, by simp [padGroup, canonChar_digit ha, canonChar_digit hb]⟩
  induction n, s using groups.induct with
  | case1 a b =>
    simp only [groups, Bool.and_eq_true] at h
    obtain ⟨hgroup, hpad⟩ := hpair h.1 h.2
    exact ⟨[[a, b]], Spells.last hgroup, rfl, hpad⟩
  | case2 n a b c rest ih =>
    simp only [groups, Bool.and_eq_true] at h
    obtain ⟨⟨⟨ha, hb⟩, hc⟩, hrest⟩ := h
    obtain ⟨hgroup, hpad⟩ := hpair ha hb
    obtain ⟨gs, hgs, hlen, htext⟩ := ih hrest
    refine ⟨[a, b] :: gs, Spells.cons hgroup hc hgs, by rw [List.length_cons, hlen], ?_⟩
    rw [canonText_cons hgs.ne_nil, htext, hpad]
    simp [canonChar_sep hc]
  | case3 n s h0 h1 => rw [groups] at h <;> simp_all

/-- Six two-digit groups in any case, separated by `:` or `-`, are accepted as their
    lower-case colon form. -/
theorem npMacNormalize_groups {s : Str} (h : groups isxdigit isSep 5 s = true) :
    npMacNormalize s = some (s.map canonChar) := by
  obtain ⟨gs, hgs, hlen, hcanon⟩ := spells_of_groups h
  obtain ⟨out, hrun, hf, hout⟩ := macLoop_spells hgs {} rfl (by rw [hlen]) rfl
  have ht : isCanonical (s.map canonChar) = true := groups_canon h
  rw [npMacNormalize, hrun, Option.map_some, bufText_spec hf ht (by simpa [hcanon] using hout)]

/-- Normalizing a canonical address returns it. -/
theorem npMacNormalize_text (m : Mac) : npMacNormalize m.text = some m.text := by
  rw [npMacNormalize_groups (canonical_groups m.canonical), canonical_map m.canonical]

@[simp] theorem normMac_text (m : Mac) : normMac m.text = some m :=
  normMac_eq_some.mpr (npMacNormalize_text m)

/-! ## The stores -/

/-- The stores after the loop, accepted or not. -/
def finishStores (st : MacState) : List (Nat × Char) :=
  if st.hexcount > 0 then
    if st.bytes ≥ 6 then st.out
    else st.out ++ [(st.bytes * 3 + 0, st.padded.1), (st.bytes * 3 + 1, st.padded.2)] ++
      if st.bytes + 1 ≠ 6 then [] else [(17, '\x00')]
  else if st.bytes ≠ 6 then st.out
  else st.out ++ [(17, '\x00')]

/-- All stores into the output buffer, in order, accepted or not. -/
def macStores : MacState → Str → List (Nat × Char)
  | st, [] => finishStores st
  | st, c :: cs => match macStep st c with
      | none => st.out
      | some st' => macStores st' cs

theorem macStores_of_macLoop {st : MacState} {s : Str} {out : List (Nat × Char)}
    (h : macLoop st s = some out) : macStores st s = out := by
  induction s generalizing st with
  | nil =>
    rw [macLoop, macFinish] at h
    rw [macStores, finishStores]
    split_ifs at h ⊢ <;> exact Option.some.inj h
  | cons c cs ih =>
    rw [macLoop] at h
    rw [macStores]
    cases hst : macStep st c with
    | none => rw [hst] at h; cases h
    | some st' =>
      rw [hst] at h
      exact ih h

theorem Filled.lt {n : Nat} {out : List (Nat × Char)} (h : Filled n out) {p : Nat × Char}
    (hp : p ∈ out) : p.1 < n := by
  have hmem : p.1 ∈ out.map Prod.fst := List.mem_map_of_mem hp
  rw [show out.map Prod.fst = List.range n from h] at hmem
  exact List.mem_range.mp hmem

theorem mem_finishStores {st : MacState} {p : Nat × Char} (hp : p ∈ finishStores st) :
    p ∈ st.out ∨ (p.1 ≤ st.bytes * 3 + 1 ∧ st.bytes < 6) ∨ p.1 = 17 := by
  unfold finishStores at hp
  by_cases hpos : st.hexcount > 0
  · rw [if_pos hpos] at hp
    by_cases hb : st.bytes ≥ 6
    · rw [if_pos hb] at hp
      exact Or.inl hp
    · rw [if_neg hb, List.mem_append, List.mem_append] at hp
      rcases hp with (hp | hp) | hp
      · exact Or.inl hp
      · have hle : p.1 ≤ st.bytes * 3 + 1 := by
          rcases List.mem_pair.mp hp with rfl | rfl
          · exact Nat.le_succ _
          · exact le_refl _
        exact Or.inr (Or.inl ⟨hle, by omega⟩)
      · split at hp
        · cases hp
        · exact Or.inr (Or.inr (by rw [List.mem_singleton.mp hp]))
  · rw [if_neg hpos] at hp
    by_cases hb : st.bytes ≠ 6
    · rw [if_pos hb] at hp
      exact Or.inl hp
    · rw [if_neg hb, List.mem_append] at hp
      rcases hp with hp | hp
      · exact Or.inl hp
      · exact Or.inr (Or.inr (by rw [List.mem_singleton.mp hp]))

/-- No store leaves the buffer, whatever the input. -/
theorem macStores_lt {st : MacState} (hi : MacInv st) (s : Str) :
    ∀ p ∈ macStores st s, p.1 < 18 := by
  have hout : ∀ {st : MacState}, MacInv st → ∀ p ∈ st.out, p.1 < 18 := fun hi p hp => by
    have := hi.filled.lt hp
    omega
  induction s generalizing st with
  | nil =>
    intro p hp
    rcases mem_finishStores hp with hp | ⟨hp, hb⟩ | hp
    · exact hout hi p hp
    · omega
    · omega
  | cons c cs ih =>
    rw [macStores]
    cases hst : macStep st c with
    | none => exact hout hi
    | some st' => exact ih (macStep_inv hi hst)

/-! ## The function -/

theorem npMacNormalize_eq_some {s t : Str} : npMacNormalize s = some t ↔
    ∃ gs, Spells gs (despace s) ∧ gs.length = 6 ∧ t = canonText gs := by
  have hrun : ∀ gs, Spells gs (despace s) → gs.length = 6 →
      npMacNormalize s = some (canonText gs) := by
    intro gs hgs hlen
    obtain ⟨out, hout, hfilled, htext⟩ := macLoop_spells hgs {} rfl (by rw [hlen]) rfl
    rw [← macLoop_despaced] at hout
    obtain ⟨_, u, hu, hsnd⟩ := macLoop_spec MacInv.init hout
    rw [npMacNormalize, hout, Option.map_some, bufText_spec hfilled hu hsnd]
    exact congrArg some (List.append_cancel_right (hsnd.symm.trans htext))
  constructor
  · intro h
    obtain ⟨out, hout, _⟩ := Option.map_eq_some_iff.mp h
    rw [macLoop_despaced] at hout
    have hnone : Pending {} [] := ⟨rfl, fun _ hc => absurd hc List.not_mem_nil⟩
    rcases spells_of_macLoop hnone (Nat.zero_le _) (fun c hc => mem_despace hc) hout with
      ⟨hb, _⟩ | ⟨gs, hgs, hlen⟩
    · cases hb
    · exact ⟨gs, hgs, hlen, Option.some.inj (h.symm.trans (hrun gs hgs hlen))⟩
  · rintro ⟨gs, hgs, hlen, rfl⟩
    exact hrun gs hgs hlen

/-- **`np_mac_normalize`.** It accepts the spellings of six groups, white space apart, and returns
    their canonical text; accepted or not it stores at indices 0 to 17 only, and accepted it stores at
    each of them once. Two spellings have one output exactly when they denote the same octets, and an
    output is its own. -/
theorem mac_grammar (s : Str) :
    (∀ t, npMacNormalize s = some t ↔
      ∃ gs, Spells gs (despace s) ∧ gs.length = 6 ∧ t = canonText gs) ∧
    (∀ p ∈ macStores {} s, p.1 < 18) ∧
    (∀ out, macLoop {} s = some out → macStores {} s = out ∧ out.map Prod.fst = List.range 18 ∧
      ∃ t, t.length = 17 ∧ npMacNormalize s = some t ∧ out.map Prod.snd = t ++ ['\x00']) ∧
    (∀ s' gs gs', Spells gs (despace s) → gs.length = 6 → Spells gs' (despace s') → gs'.length = 6 →
      (npMacNormalize s = npMacNormalize s' ↔ gs.map octet = gs'.map octet)) ∧
    ∀ t, npMacNormalize s = some t → npMacNormalize t = some t := by
  refine ⟨fun t => npMacNormalize_eq_some, macStores_lt MacInv.init s, fun out hout => ?_,
    fun s' gs gs' hgs hlen hgs' hlen' => ?_, fun t ht => ?_⟩
  · obtain ⟨hfilled, t, ht, hsnd⟩ := macLoop_spec MacInv.init hout
    refine ⟨macStores_of_macLoop hout, hfilled, t, groups_length ht, ?_, hsnd⟩
    rw [npMacNormalize, hout, Option.map_some, bufText_spec hfilled ht hsnd]
  · rw [npMacNormalize_eq_some.mpr ⟨gs, hgs, hlen, rfl⟩,
      npMacNormalize_eq_some.mpr ⟨gs', hgs', hlen', rfl⟩, Option.some.injEq]
    exact canonText_eq_iff hgs.groups hgs'.groups (hlen.trans hlen'.symm)
  · exact npMacNormalize_text ⟨t, npMacNormalize_canonical ht⟩

/-- White space inside an octet, one-digit groups, mixed separators, one at the end. -/
theorem mac_grammar_mixed : npMacNormalize "aa:0b:0c:11:22:33".toList = some "aa:0b:0c:11:22:33".toList :=
  (mac_grammar "A a-b:0c:11:22 :33-".toList).2.2.2.2 _ (by decide +kernel)

end Netparent
