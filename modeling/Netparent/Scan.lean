/-
  The scan of nft's output, byte by byte (nft.c, the loop of `np_nft_list`).

  `scanFrom` is the loop over the buffer and the number of bytes gathered, with the indices it
  reads written down as it reads them. `scanFrom_exact`: the callback receives the leftmost-first
  pairwise disjoint occurrences of the address pattern in the gathered bytes, and no index at or
  past the total is read. `scanFrom_scanLoop` joins it to `scanLoop`, the scan of a byte string
  that `npNftList` is built on.
-/
import Netparent.Listing

namespace Netparent

/-! ## The loop -/

/-- The tests of the loop's condition, for `p[0]` to `p[16]`. -/
def macTests : List (Char → Bool) :=
  [isxdigit, isxdigit, isColon, isxdigit, isxdigit, isColon, isxdigit, isxdigit, isColon,
    isxdigit, isxdigit, isColon, isxdigit, isxdigit, isColon, isxdigit, isxdigit]

/-- `t₀(buf[i]) && t₁(buf[i + 1]) && …`, and the indices it reads: none after a test that fails. -/
def allAt (buf : Nat → Char) : List (Char → Bool) → (i : Nat) → Bool × List Nat
  | [], _ => (true, [])
  | t :: ts, i =>
      if t (buf i) then ((allAt buf ts (i + 1)).1, i :: (allAt buf ts (i + 1)).2)
      else (false, [i])

/-- The 17 bytes copied from `buf + i`, in lower case. -/
def lowered (buf : Nat → Char) (i : Nat) : Str := (List.range 17).map fun j => tolower (buf (i + j))

/-- What the loop does: the strings its callback gets and the indices of `buf` it reads. -/
structure ScanTrace where
  calls : List Str
  reads : List Nat

/-- The loop from index `i` on. A match advances by 17: `i += 16`, then the loop's `i++`. The sum
    `i + 16` does not wrap: `i` never passes `total`, at most 4095. -/
def scanFrom (buf : Nat → Char) (total i : Nat) : ScanTrace :=
  if i + 16 < total then
    if (allAt buf macTests i).1 then
      ⟨lowered buf i :: (scanFrom buf total (i + 17)).calls,
        (allAt buf macTests i).2 ++ List.range' i 17 ++ (scanFrom buf total (i + 17)).reads⟩
    else
      ⟨(scanFrom buf total (i + 1)).calls,
        (allAt buf macTests i).2 ++ (scanFrom buf total (i + 1)).reads⟩
  else ⟨[], []⟩
termination_by total - i

theorem scanFrom_end {buf : Nat → Char} {total i : Nat} (h : ¬ i + 16 < total) :
    scanFrom buf total i = ⟨[], []⟩ := by
  rw [scanFrom, if_neg h]

theorem scanFrom_match {buf : Nat → Char} {total i : Nat} (h : i + 16 < total)
    (hm : (allAt buf macTests i).1 = true) : scanFrom buf total i =
      ⟨lowered buf i :: (scanFrom buf total (i + 17)).calls,
        (allAt buf macTests i).2 ++ List.range' i 17 ++ (scanFrom buf total (i + 17)).reads⟩ := by
  rw [scanFrom, if_pos h, if_pos hm]

theorem scanFrom_miss {buf : Nat → Char} {total i : Nat} (h : i + 16 < total)
    (hm : ¬ (allAt buf macTests i).1 = true) : scanFrom buf total i =
      ⟨(scanFrom buf total (i + 1)).calls,
        (allAt buf macTests i).2 ++ (scanFrom buf total (i + 1)).reads⟩ := by
  rw [scanFrom, if_pos h, if_neg hm]

/-! ## One window -/

theorem allAt_cons_fst (buf : Nat → Char) (t : Char → Bool) (ts : List (Char → Bool)) (i : Nat) :
    (allAt buf (t :: ts) i).1 = (t (buf i) && (allAt buf ts (i + 1)).1) := by
  by_cases ht : t (buf i) = true
  · rw [allAt, if_pos ht, ht, Bool.true_and]
  · rw [allAt, if_neg ht, Bool.eq_false_iff.mpr ht, Bool.false_and]

theorem allAt_fst (buf : Nat → Char) (ts : List (Char → Bool)) (i : Nat) :
    (allAt buf ts i).1 = true ↔
      ∀ (j : Nat) (t : Char → Bool), ts[j]? = some t → t (buf (i + j)) = true := by
  induction ts generalizing i with
  | nil => simp [allAt]
  | cons t ts ih =>
    rw [allAt_cons_fst, Bool.and_eq_true, ih]
    constructor
    · rintro ⟨ht, hts⟩ j u hu
      cases j with
      | zero =>
        obtain rfl : t = u := by simpa using hu
        exact ht
      | succ j =>
        have := hts j u (by simpa using hu)
        rwa [Nat.add_assoc, Nat.add_comm 1 j] at this
    · intro h
      refine ⟨h 0 t rfl, fun j u hu => ?_⟩
      have := h (j + 1) u (by simpa using hu)
      rwa [Nat.add_assoc, Nat.add_comm 1 j]

theorem allAt_reads {buf : Nat → Char} {ts : List (Char → Bool)} {i k : Nat}
    (hk : k ∈ (allAt buf ts i).2) : k < i + ts.length := by
  induction ts generalizing i with
  | nil => cases hk
  | cons t ts ih =>
    rw [List.length_cons]
    rw [allAt] at hk
    split at hk
    · rcases List.mem_cons.mp hk with rfl | hk
      · omega
      · have := ih hk
        omega
    · obtain rfl : k = i := by simpa using hk
      omega

/-- The pattern `HH:HH:HH:HH:HH:HH` at `p`, inside the first `total` bytes. -/
def Occurs (buf : Nat → Char) (total p : Nat) : Prop :=
  p + 17 ≤ total ∧
    ∀ j < 17, if j % 3 = 2 then buf (p + j) = ':' else isxdigit (buf (p + j)) = true

theorem macTests_get {j : Nat} (hj : j < 17) :
    macTests[j]? = some (if j % 3 = 2 then isColon else isxdigit) := by
  interval_cases j <;> rfl

/-- The condition of the loop is the pattern. -/
theorem occurs_iff {buf : Nat → Char} {total i : Nat} (h : i + 16 < total) :
    Occurs buf total i ↔ (allAt buf macTests i).1 = true := by
  rw [allAt_fst]
  constructor
  · intro ho j t ht
    have hj : j < 17 := (List.getElem?_eq_some_iff.mp ht).1
    have hpat := ho.2 j hj
    rw [macTests_get hj, Option.some.injEq] at ht
    subst ht
    split at hpat
    · rw [if_pos ‹_›, hpat]
      decide
    · rw [if_neg ‹_›]
      exact hpat
  · intro hall
    refine ⟨by omega, fun j hj => ?_⟩
    have ht := hall j _ (macTests_get hj)
    split
    · rw [if_pos ‹_›] at ht
      simpa [isColon] using ht
    · rw [if_neg ‹_›] at ht
      exact ht

/-! ## The whole scan -/

/-- What a scan of the first `total` bytes from `i` on should report: occurrences of the pattern,
    in order and disjoint, such that any other occurrence overlaps an earlier reported one; and
    what it should read. -/
structure ExactScan (buf : Nat → Char) (total i : Nat) (tr : ScanTrace) (ps : List Nat) : Prop where
  calls : tr.calls = ps.map (lowered buf)
  occurs : ∀ p ∈ ps, i ≤ p ∧ Occurs buf total p
  disjoint : ps.Pairwise fun p q => p + 17 ≤ q
  complete : ∀ q, i ≤ q → Occurs buf total q → q ∈ ps ∨ ∃ p ∈ ps, p < q ∧ q < p + 17
  reads : ∀ k ∈ tr.reads, k < total

theorem ExactScan.done {buf : Nat → Char} {total i : Nat} (h : ¬ i + 16 < total) :
    ExactScan buf total i ⟨[], []⟩ [] where
  calls := rfl
  occurs := by simp
  disjoint := List.Pairwise.nil
  complete := fun q hq ho => by
    have := ho.1
    omega
  reads := by simp

theorem ExactScan.match {buf : Nat → Char} {total i : Nat} {tr : ScanTrace} {ps : List Nat}
    (h : i + 16 < total) (hm : (allAt buf macTests i).1 = true)
    (hrest : ExactScan buf total (i + 17) tr ps) :
    ExactScan buf total i ⟨lowered buf i :: tr.calls,
      (allAt buf macTests i).2 ++ List.range' i 17 ++ tr.reads⟩ (i :: ps) where
  calls := by rw [List.map_cons, hrest.calls]
  occurs := by
    intro p hp
    rcases List.mem_cons.mp hp with rfl | hp
    · exact ⟨Nat.le_refl _, (occurs_iff h).mpr hm⟩
    · have hge := (hrest.occurs p hp).1
      exact ⟨by omega, (hrest.occurs p hp).2⟩
  disjoint := List.pairwise_cons.mpr ⟨fun q hq => (hrest.occurs q hq).1, hrest.disjoint⟩
  complete := by
    intro q hq ho
    -- an occurrence in the 17 bytes just matched overlaps them; any later one is the rest's
    by_cases hfar : i + 17 ≤ q
    · rcases hrest.complete q hfar ho with hmem | ⟨p, hp, hlt⟩
      · exact Or.inl (List.mem_cons_of_mem _ hmem)
      · exact Or.inr ⟨p, List.mem_cons_of_mem _ hp, hlt⟩
    · rcases Nat.eq_or_lt_of_le hq with rfl | hlt
      · exact Or.inl List.mem_cons_self
      · exact Or.inr ⟨i, List.mem_cons_self, hlt, by omega⟩
  reads := by
    intro k hk
    simp only [List.mem_append, List.mem_range'_1] at hk
    rcases hk with (hk | hk) | hk
    · have := allAt_reads hk
      have hlen : macTests.length = 17 := rfl
      omega
    · omega
    · exact hrest.reads k hk

theorem ExactScan.miss {buf : Nat → Char} {total i : Nat} {tr : ScanTrace} {ps : List Nat}
    (h : i + 16 < total) (hm : ¬ (allAt buf macTests i).1 = true)
    (hrest : ExactScan buf total (i + 1) tr ps) :
    ExactScan buf total i ⟨tr.calls, (allAt buf macTests i).2 ++ tr.reads⟩ ps where
  calls := hrest.calls
  occurs := by
    intro p hp
    have hge := (hrest.occurs p hp).1
    exact ⟨by omega, (hrest.occurs p hp).2⟩
  disjoint := hrest.disjoint
  complete := by
    intro q hq ho
    have hne : q ≠ i := fun he => hm ((occurs_iff h).mp (he ▸ ho))
    exact hrest.complete q (by omega) ho
  reads := by
    intro k hk
    rcases List.mem_append.mp hk with hk | hk
    · have := allAt_reads hk
      have hlen : macTests.length = 17 := rfl
      omega
    · exact hrest.reads k hk

theorem scanFrom_exactFrom (buf : Nat → Char) (total i : Nat) :
    ∃ ps, ExactScan buf total i (scanFrom buf total i) ps := by
  induction i using scanFrom.induct buf total with
  | case1 i h hm ih =>
    obtain ⟨ps, hps⟩ := ih
    rw [scanFrom_match h hm]
    exact ⟨i :: ps, hps.match h hm⟩
  | case2 i h hm ih =>
    obtain ⟨ps, hps⟩ := ih
    rw [scanFrom_miss h hm]
    exact ⟨ps, hps.miss h hm⟩
  | case3 i h =>
    rw [scanFrom_end h]
    exact ⟨[], .done h⟩

/-- The occurrences that end with the last of the `total` bytes are reported like any other. -/
theorem ExactScan.last {buf : Nat → Char} {total i q : Nat} {tr : ScanTrace} {ps : List Nat}
    (h : ExactScan buf total i tr ps) (hi : i ≤ q) (ho : Occurs buf total q) (hq : q + 17 = total)
    (hfree : ∀ p ∈ ps, p < q → p + 17 ≤ q) : q ∈ ps := by
  rcases h.complete q hi ho with hmem | ⟨p, hp, hlt, hover⟩
  · exact hmem
  · have := hfree p hp hlt
    omega

/-- For every buffer and every number of bytes gathered, the callback receives, lower-cased and in
    order, occurrences `ps` of the pattern inside those bytes that are pairwise disjoint, and every
    other occurrence there overlaps one reported before it; one that ends with the last byte is
    no exception. No byte at index `total` or beyond is read. -/
theorem scanFrom_exact (buf : Nat → Char) (total : Nat) :
    ∃ ps : List Nat,
      (scanFrom buf total 0).calls = ps.map (lowered buf) ∧
      (∀ p ∈ ps, Occurs buf total p) ∧
      (ps.Pairwise fun p q => p + 17 ≤ q) ∧
      (∀ q, Occurs buf total q → q ∈ ps ∨ ∃ p ∈ ps, p < q ∧ q < p + 17) ∧
      (∀ q, Occurs buf total q → q + 17 = total → (∀ p ∈ ps, p < q → p + 17 ≤ q) → q ∈ ps) ∧
      ∀ k ∈ (scanFrom buf total 0).reads, k < total := by
  obtain ⟨ps, h⟩ := scanFrom_exactFrom buf total 0
  refine ⟨ps, h.calls, fun p hp => (h.occurs p hp).2, h.disjoint,
    fun q ho => h.complete q (Nat.zero_le q) ho, fun q ho hq hfree => ?_, h.reads⟩
  exact h.last (Nat.zero_le q) ho hq hfree

/-! ## The scan of a byte string -/

/-- The first `total` bytes of a buffer. -/
def firstBytes (buf : Nat → Char) (total : Nat) : Str := (List.range total).map buf

theorem firstBytes_drop {buf : Nat → Char} {total i : Nat} (h : i < total) :
    (firstBytes buf total).drop i = buf i :: (firstBytes buf total).drop (i + 1) := by
  have hlen : i < (firstBytes buf total).length := by simpa [firstBytes] using h
  rw [List.drop_eq_getElem_cons hlen]
  simp [firstBytes]

theorem firstBytes_window {buf : Nat → Char} {total i : Nat} (h : i + 16 < total) :
    ((firstBytes buf total).drop i).take 17 = (List.range 17).map fun j => buf (i + j) := by
  refine List.ext_getElem ?_ fun j h₁ h₂ => ?_
  · simp [firstBytes]
    omega
  · simp [firstBytes]

theorem macAt_window {buf : Nat → Char} {total i : Nat} (h : i + 16 < total) :
    macAt ((firstBytes buf total).drop i) = (allAt buf macTests i).1 := by
  rw [macAt, firstBytes_window h]
  simp only [List.range, List.range.loop, List.map_cons, List.map_nil, groups, macTests,
    allAt_cons_fst, Bool.and_assoc, Nat.add_assoc, Nat.reduceAdd, Nat.add_zero]
  simp only [allAt, Bool.and_true]

/-- The loop finds in a buffer what `scanLoop` finds in its first bytes. -/
theorem scanFrom_scanLoop (buf : Nat → Char) (total i : Nat) :
    (scanFrom buf total i).calls = scanLoop 0 ((firstBytes buf total).drop i) := by
  induction i using scanFrom.induct buf total with
  | case1 i h hm ih =>
    have hcons : (firstBytes buf total).drop i = buf i :: (firstBytes buf total).drop (i + 1) :=
      firstBytes_drop (by omega)
    have hmac := (macAt_window h).trans hm
    have hwin : (((firstBytes buf total).drop i).take 17).map tolower = lowered buf i := by
      rw [firstBytes_window h, List.map_map]
      rfl
    rw [hcons] at hmac hwin
    rw [scanFrom_match h hm, ih, hcons, scanLoop, if_pos hmac, hwin, scanLoop_skip 16,
      List.drop_drop, Nat.add_assoc]
  | case2 i h hm ih =>
    have hcons : (firstBytes buf total).drop i = buf i :: (firstBytes buf total).drop (i + 1) :=
      firstBytes_drop (by omega)
    have hmac := (macAt_window h).trans (Bool.eq_false_iff.mpr hm)
    rw [hcons] at hmac
    rw [scanFrom_miss h hm, ih, hcons, scanLoop_cons_of_not hmac]
  | case3 i h =>
    have hshort : ((firstBytes buf total).drop i).length < 17 := by
      simp [firstBytes]
      omega
    rw [scanFrom_end h, scanLoop_of_macFree (macFree_of_length hshort)]

section

variable {κ : Type} (h : Host κ)

/-- `npNftList` scans the buffer the gathering loop has filled, whatever lies behind the bytes
    gathered. -/
theorem npNftList_scan (cfg : Config) (w : World κ) (behind : Nat → Char) :
    (npNftList h cfg w).1 = (w.popen h (listSetCmd cfg)).1.map fun p =>
      (scanFrom (fun i => (gather 4096 p.out).getD i (behind i)) (gather 4096 p.out).length
        0).calls := by
  rw [npNftList]
  cases (w.popen h (listSetCmd cfg)).1 with
  | none => rfl
  | some p =>
    have hbytes : firstBytes (fun i => (gather 4096 p.out).getD i (behind i))
        (gather 4096 p.out).length = gather 4096 p.out := by
      refine List.ext_getElem (by simp [firstBytes]) fun j h₁ h₂ => ?_
      simp [firstBytes, h₂]
    simp only [Option.map_some, scanFrom_scanLoop, List.drop_zero, hbytes]

end

end Netparent
