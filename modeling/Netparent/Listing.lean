/-
  What `np_nft_list` reads out of nft's listing.

  A listing is one line: a header, the elements as quoted addresses separated by ", ", and a
  trailer, with no address in header or trailer. The gathering loop keeps its first 4095 bytes
  (`gather_eq_take`), and the scan of a listing cut at `n` bytes reports, in order, the elements that
  end within them (`scanLoop_listing`). So the callback receives every element exactly when the
  last one ends within the buffer.
-/
import Netparent.Handler

namespace Netparent

/-! ## Gathering -/

/-- A read from a stream with a newline only at its end takes all there is room for. -/
theorem fgets_eq_take {n : Nat} {s : Str} (hs : s ≠ []) (hn : '\n' ∉ s.dropLast) :
    fgets (n + 2) s = some (s.take (n + 1), s.drop (n + 1)) := by
  induction n generalizing s with
  | zero =>
    obtain ⟨c, cs, rfl⟩ := List.exists_cons_of_ne_nil hs
    by_cases hc : c = '\n' <;> simp [fgets, hc]
  | succ n ih =>
    obtain ⟨c, cs, rfl⟩ := List.exists_cons_of_ne_nil hs
    by_cases hc : c = '\n'
    · have hcs : cs = [] := by
        by_contra hne
        exact hn (by rw [List.dropLast_cons_of_ne_nil hne, hc]; simp)
      simp [fgets, hc, hcs]
    · by_cases hcs : cs = []
      · simp [fgets, hc, hcs]
      · have hn' : '\n' ∉ cs.dropLast := fun hm =>
          hn (by rw [List.dropLast_cons_of_ne_nil hcs]; exact List.mem_cons_of_mem _ hm)
        rw [fgets, if_neg hc, ih hcs hn']
        rfl

/-- A read at the end of a stream, or into a full buffer, ends the loop. -/
theorem gatherLoop_end {size fuel : Nat} {buf stream : Str} (hb : buf.length < size)
    (h : stream = [] ∨ buf.length = size - 1) : gatherLoop size fuel buf stream = buf := by
  cases fuel with
  | zero => rfl
  | succ fuel =>
    unfold gatherLoop
    split
    · rfl
    · next piece rest hf =>
      rcases h with rfl | hfull
      · obtain ⟨n, hn⟩ : ∃ n, size - buf.length = n + 1 := ⟨size - buf.length - 1, by omega⟩
        rw [hn] at hf
        cases n with
        | zero => rw [if_neg (by omega)]
        | succ n => simp [fgets] at hf
      · rw [if_neg (by omega)]

/-- One line without NUL is gathered up to the size of the buffer. -/
theorem gather_eq_take {n : Nat} {s : Str} (hnul : '\x00' ∉ s) (hn : '\n' ∉ s.dropLast) :
    gather (n + 2) s = s.take (n + 1) := by
  unfold gather
  by_cases hs : s = []
  · subst hs
    exact gatherLoop_end (by simp) (Or.inl rfl)
  · have hc : cstr (s.take (n + 1)) = s.take (n + 1) := by
      refine List.takeWhile_eq_self_iff.mpr fun c hc => ?_
      have : c ≠ '\x00' := fun he => hnul (he ▸ List.mem_of_mem_take hc)
      simpa using this
    rw [gatherLoop, List.length_nil, Nat.sub_zero, fgets_eq_take hs hn]
    dsimp only
    rw [if_pos (by omega), hc, List.nil_append]
    refine gatherLoop_end (by rw [List.length_take]; omega) ?_
    by_cases hlen : s.length ≤ n + 1
    · exact Or.inl (List.drop_eq_nil_of_le hlen)
    · exact Or.inr (by rw [List.length_take]; omega)

/-! ## Scanning -/

/-- No window of the text is an address. -/
def MacFree (s : Str) : Prop := ∀ p, p <:+ s → macAt p = false

theorem macAt_length {p : Str} (h : macAt p = true) : 17 ≤ p.length := by
  have := groups_length h
  rw [List.length_take] at this
  omega

/-- A window that is an address holds only hex digits and colons. -/
theorem macAt_mem {p : Str} (h : macAt p = true) {c : Char} (hc : c ∈ p.take 17) :
    isxdigit c = true ∨ isColon c = true :=
  groups_mem h c hc

/-- The start of a window that is an address is a hex digit. -/
theorem macAt_cons {c : Char} {cs : Str} (h : macAt (c :: cs) = true) : isxdigit c = true := by
  have hl := macAt_length h
  match cs, hl with
  | a :: b :: rest, _ =>
    unfold macAt at h
    rw [List.take_cons (by decide), List.take_cons (by decide), List.take_cons (by decide)] at h
    simp only [groups, Bool.and_eq_true] at h
    exact h.1.1.1

theorem scanLoop_cons_of_not {c : Char} {cs : Str} (h : macAt (c :: cs) = false) :
    scanLoop 0 (c :: cs) = scanLoop 0 cs := by
  simp [scanLoop, h]

theorem scanLoop_skip (k : Nat) (s : Str) : scanLoop k s = scanLoop 0 (s.drop k) := by
  induction k generalizing s with
  | zero => rfl
  | succ k ih =>
    cases s with
    | nil => simp [scanLoop]
    | cons c cs => rw [scanLoop, ih, List.drop_succ_cons]

/-- A match is reported in lower case and skipped. -/
theorem scanLoop_match {e rest : Str} (he : groups isxdigit isColon 5 e = true) :
    scanLoop 0 (e ++ rest) = e.map tolower :: scanLoop 0 rest := by
  have hlen : e.length = 17 := groups_length he
  have htake : (e ++ rest).take 17 = e := by
    rw [← hlen, List.take_left]
  have hm : macAt (e ++ rest) = true := by rw [macAt, htake]; exact he
  obtain ⟨c, cs, hcs⟩ : ∃ c cs, e ++ rest = c :: cs :=
    List.exists_cons_of_ne_nil (by intro h0; rw [h0] at hm; exact absurd hm (by decide))
  have hdrop : cs.drop 16 = rest := by
    have : (c :: cs).drop 17 = rest := by rw [← hcs, ← hlen, List.drop_left]
    simpa using this
  rw [hcs, scanLoop, ← hcs, hm, if_pos rfl, htake, scanLoop_skip, hdrop]

/-- Windows that start in `p` and are no address are passed over. -/
theorem scanLoop_append_of_not {p q : Str}
    (h : ∀ r, r <:+ p → r ≠ [] → macAt (r ++ q) = false) : scanLoop 0 (p ++ q) = scanLoop 0 q := by
  induction p with
  | nil => rfl
  | cons c cs ih =>
    have hc := h (c :: cs) (List.suffix_refl _) (by simp)
    rw [List.cons_append] at hc ⊢
    rw [scanLoop_cons_of_not hc]
    exact ih fun r hr hne => h r (hr.trans (List.suffix_cons c cs)) hne

theorem scanLoop_of_macFree {s : Str} (h : MacFree s) : scanLoop 0 s = [] := by
  have := scanLoop_append_of_not (p := s) (q := []) fun r hr _ => by simpa using h r hr
  rwa [List.append_nil] at this

theorem macFree_of_length {s : Str} (h : s.length < 17) : MacFree s := by
  intro p hp
  by_contra hm
  have := macAt_length (by simpa using hm)
  have := hp.length_le
  omega

theorem MacFree.take {s : Str} (h : MacFree s) (n : Nat) : MacFree (s.take n) := by
  intro p hp
  by_contra hm
  have hm : macAt p = true := by simpa using hm
  obtain ⟨t, ht⟩ := hp
  have hsuf : p ++ s.drop n <:+ s :=
    ⟨t, by rw [← List.append_assoc, ht, List.take_append_drop]⟩
  have htk : (p ++ s.drop n).take 17 = p.take 17 :=
    List.take_append_of_le_length (macAt_length hm)
  have hbad := h _ hsuf
  rw [macAt, htk] at hbad
  exact absurd (hm.symm.trans hbad) (by decide)

/-- A MAC-free text before a quote: no window that starts in it is an address. -/
theorem macFree_before_quote {r q : Str} (h : MacFree r) :
    macAt (r ++ '"' :: q) = false := by
  by_contra hm
  have hm : macAt (r ++ '"' :: q) = true := by simpa using hm
  by_cases hlen : 17 ≤ r.length
  · have := h r (List.suffix_refl _)
    rw [macAt, List.take_append_of_le_length hlen] at hm
    exact absurd (hm.symm.trans this) (by decide)
  · have hmem : '"' ∈ (r ++ '"' :: q).take 17 := by
      rw [List.take_append, List.mem_append]
      right
      obtain ⟨k, hk⟩ : ∃ k, 17 - r.length = k + 1 := ⟨16 - r.length, by omega⟩
      rw [hk]
      simp
    rcases macAt_mem hm hmem with hd | hd <;> exact absurd hd (by decide)

theorem MacFree.suffix {r s : Str} (h : MacFree s) (hr : r <:+ s) : MacFree r :=
  fun p hp => h p (hp.trans hr)

/-! ## Listings -/

/-- The elements as nft prints them: quoted, separated by ", ". -/
def elemsText : List Str → Str
  | [] => []
  | [e] => '"' :: e ++ ['"']
  | e :: es => '"' :: e ++ '"' :: ',' :: ' ' :: elemsText es

theorem elemsText_single (e rest : Str) : elemsText [e] ++ rest = '"' :: e ++ '"' :: rest := by
  simp [elemsText]

theorem elemsText_cons {es : List Str} (hne : es ≠ []) (e rest : Str) :
    elemsText (e :: es) ++ rest = '"' :: e ++ '"' :: ',' :: ' ' :: (elemsText es ++ rest) := by
  rw [elemsText.eq_3 e es hne]
  simp

theorem elemsText_quote {es : List Str} (hne : es ≠ []) : ∃ rest, elemsText es = '"' :: rest := by
  cases es with
  | nil => exact absurd rfl hne
  | cons e es => cases es <;> exact ⟨_, rfl⟩

/-- `out` is one line listing the elements `es` between a header and a trailer. -/
structure IsListing (out header trailer : Str) (es : List Str) : Prop where
  out_eq : out = header ++ elemsText es ++ trailer
  elems : ∀ e ∈ es, groups isxdigit isColon 5 e = true
  header_free : MacFree header
  trailer_free : MacFree trailer
  empty_free : es = [] → MacFree (header ++ trailer)
  one_line : '\n' ∉ out.dropLast
  no_nul : '\x00' ∉ out

theorem scanLoop_skip_char (c : Char) (hc : isxdigit c = false) (s : Str) :
    scanLoop 0 (c :: s) = scanLoop 0 s :=
  scanLoop_cons_of_not (by
    by_contra hm
    rw [macAt_cons (by simpa using hm)] at hc
    exact absurd hc (by decide))

theorem scanLoop_take_cons {c : Char} (hc : isxdigit c = false) (s : Str) (n : Nat) :
    scanLoop 0 ((c :: s).take n) = scanLoop 0 (s.take (n - 1)) := by
  cases n with
  | zero => simp [scanLoop]
  | succ n => rw [List.take_succ_cons, scanLoop_skip_char c hc, Nat.add_sub_cancel]

/-- A quoted element is found when it ends within the cut. -/
theorem scanLoop_take_quoted {e : Str} (he : groups isxdigit isColon 5 e = true) (rest : Str)
    (n : Nat) :
    scanLoop 0 (('"' :: e ++ '"' :: rest).take n) =
      if n < 18 then [] else e.map tolower :: scanLoop 0 (rest.take (n - 19)) := by
  have hlen : e.length = 17 := groups_length he
  rw [List.cons_append, scanLoop_take_cons (by decide)]
  split
  · exact scanLoop_of_macFree (macFree_of_length (by rw [List.length_take]; omega))
  · obtain ⟨m, rfl⟩ : ∃ m, n = 18 + m := ⟨n - 18, by omega⟩
    have hcut : (e ++ '"' :: rest).take (18 + m - 1) = e ++ ('"' :: rest).take m := by
      rw [show 18 + m - 1 = e.length + m by omega, List.take_length_add_append]
    rw [hcut, scanLoop_match he, scanLoop_take_cons (by decide)]
    rw [show m - 1 = 18 + m - 19 by omega]

/-- The scan of the elements and trailer cut at `n` bytes finds the elements that end within
    them: the first `(n + 3) / 21`. -/
theorem scanLoop_elems {es : List Str} (hes : ∀ e ∈ es, groups isxdigit isColon 5 e = true)
    {trailer : Str} (ht : MacFree trailer) (n : Nat) :
    scanLoop 0 ((elemsText es ++ trailer).take n) =
      (es.take ((n + 3) / 21)).map (List.map tolower) := by
  induction es using elemsText.induct generalizing n with
  | case1 =>
    rw [elemsText, List.nil_append, scanLoop_of_macFree (ht.take n)]
    simp
  | case2 e =>
    rw [elemsText_single, scanLoop_take_quoted (hes e (by simp))]
    split
    · rw [show (n + 3) / 21 = 0 by omega]; rfl
    · obtain ⟨k, hk⟩ : ∃ k, (n + 3) / 21 = k + 1 := ⟨(n + 3) / 21 - 1, by omega⟩
      rw [hk, scanLoop_of_macFree (ht.take _)]
      simp
  | case3 e es hne ih =>
    rw [elemsText_cons hne, scanLoop_take_quoted (hes e (by simp))]
    split
    · rw [show (n + 3) / 21 = 0 by omega]; rfl
    · rw [scanLoop_take_cons (by decide), scanLoop_take_cons (by decide),
        ih fun x hx => hes x (List.mem_cons_of_mem _ hx)]
      have hk : (n + 3) / 21 = (n - 19 - 1 - 1 + 3) / 21 + 1 := by omega
      rw [hk, List.take_succ_cons, List.map_cons]

/-- The scan of a listing cut at `n` bytes. -/
theorem scanLoop_listing {out header trailer : Str} {es : List Str}
    (hl : IsListing out header trailer es) (n : Nat) :
    scanLoop 0 (out.take n) = (es.take ((n - header.length + 3) / 21)).map (List.map tolower) := by
  by_cases he : es = []
  · have hout : out = header ++ trailer := by rw [hl.out_eq, he]; simp [elemsText]
    rw [hout, scanLoop_of_macFree ((hl.empty_free he).take n), he]
    simp
  have htake : out.take n =
      header.take n ++ (elemsText es ++ trailer).take (n - header.length) := by
    rw [hl.out_eq, List.append_assoc, List.take_append]
  by_cases hn : n ≤ header.length
  · rw [htake, Nat.sub_eq_zero_of_le hn, List.take_zero, List.append_nil,
      scanLoop_of_macFree (hl.header_free.take n)]
    simp
  · -- the cut lies behind the header, whose windows end at the latest at the first quote
    obtain ⟨rest, hrest⟩ := elemsText_quote he
    obtain ⟨k, hk⟩ : ∃ k, n - header.length = k + 1 := ⟨n - header.length - 1, by omega⟩
    rw [htake, List.take_of_length_le (by omega : header.length ≤ n)]
    have hskip := scanLoop_append_of_not (p := header)
      (q := (elemsText es ++ trailer).take (n - header.length)) fun r hr _ => by
        rw [hrest, hk, List.cons_append, List.take_succ_cons]
        exact macFree_before_quote (hl.header_free.suffix hr)
    rw [hskip, scanLoop_elems hl.elems hl.trailer_free]

/-! ## Sets -/

/-- `texts` holds the addresses of `S`, each once. -/
structure Enumerates (S : Finset Mac) (texts : List Str) : Prop where
  nodup : texts.Nodup
  mem_iff : ∀ t, t ∈ texts ↔ ∃ m ∈ S, m.text = t

theorem Enumerates.length_eq {S : Finset Mac} {texts : List Str} (h : Enumerates S texts) :
    texts.length = S.card := by
  have himage : texts.toFinset = S.image Mac.text := by
    ext t
    rw [List.mem_toFinset, h.mem_iff, Finset.mem_image]
  rw [← List.toFinset_card_of_nodup h.nodup, himage,
    Finset.card_image_of_injective S Mac.text_injective]

/-- A front part of an enumeration is one only when it is the whole. -/
theorem Enumerates.take_iff {S : Finset Mac} {texts : List Str} (h : Enumerates S texts) (n : Nat) :
    Enumerates S (texts.take n) ↔ S.card ≤ n := by
  constructor
  · intro ht
    have := ht.length_eq
    rw [List.length_take] at this
    omega
  · intro hn
    rwa [List.take_of_length_le (by rw [h.length_eq]; exact hn)]

section Host

variable {κ : Type} (h : Host κ) (parse : Str → Option Json)

/-- What the callback receives of a listing: the elements that end within 4095 bytes. -/
theorem npNftList_listing (cfg : Config) {w : World κ} {p : Proc} {header trailer : Str}
    {es : List Str} (hp : (h.popen (listSetCmd cfg) w.host).1 = some p)
    (hl : IsListing p.out header trailer es) :
    (npNftList h cfg w).1 =
      some ((es.map (List.map tolower)).take ((4095 - header.length + 3) / 21)) := by
  have hscan := scanLoop_listing hl 4095
  rw [← gather_eq_take hl.no_nul hl.one_line, List.map_take] at hscan
  simp only [npNftList, World.popen, hp, hscan]

/-- A listing of at most `(4098 - header.length) / 21` elements is read completely. -/
theorem npNftList_complete (cfg : Config) {w : World κ} {p : Proc} {header trailer : Str}
    {es : List Str} (hp : (h.popen (listSetCmd cfg) w.host).1 = some p)
    (hl : IsListing p.out header trailer es)
    (hfit : es = [] ∨ header.length + 21 * es.length ≤ 4098) :
    (npNftList h cfg w).1 = some (es.map (List.map tolower)) := by
  rw [npNftList_listing h cfg hp hl, List.take_of_length_le]
  rw [List.length_map]
  rcases hfit with rfl | hfit
  · simp
  · omega

/-- The actions of a `cmd/list` message: the listing, and at most one reply, with what the
    listing gave. -/
theorem list_publishes {cfg : Config} {leases : Option NpLeases} {topic payload : Str} {w : World κ}
    (haction : parseAction topic cfg.deviceId = some "list".toList) {m : Msg} {ok : Bool}
    (hm : Act.publish m ok ∈ (npHandleMessage h parse cfg leases topic payload w).2.trace) :
    Act.publish m ok ∈ w.trace ∨
      ∃ r, m = .response r (listBody "list".toList ((npNftList h cfg w).1.getD [])) := by
  unfold npHandleMessage at hm
  rw [haction] at hm
  cases hj : commandJson parse payload with
  | none => rw [hj] at hm; exact Or.inl hm
  | some json =>
    rw [hj] at hm
    dsimp only at hm
    rw [if_neg (by decide), if_neg (by decide), if_neg (by decide), if_pos rfl] at hm
    have htrace : (npNftList h cfg w).2.trace = w.trace ++ [.exec (listSetCmd cfg)] := by
      unfold npNftList
      dsimp only
      split <;> rfl
    cases hr : Json.valuestring (json.getObjectItemCaseSensitive "req_id".toList) with
    | none =>
      simp only [listCommand, hr, htrace, List.mem_append, List.mem_singleton, reduceCtorEq,
        or_false] at hm
      exact Or.inl hm
    | some r =>
      simp only [listCommand, hr, World.publish, htrace, List.mem_append, List.mem_singleton,
        reduceCtorEq, or_false, Act.publish.injEq] at hm
      rcases hm with hm | hm
      · exact Or.inl hm
      · exact Or.inr ⟨r, hm.1⟩

/-- Every address of the set is passed to the callback once and nothing else is, and every
    answer to `cmd/list` names exactly the set. -/
def ListsExactly (S : Finset Mac) (cfg : Config) (k : κ) : Prop :=
  (∃ calls, (npNftList h cfg { host := k }).1 = some calls ∧ Enumerates S calls) ∧
    ∀ leases topic payload, parseAction topic cfg.deviceId = some "list".toList →
      ∀ m ok, Act.publish m ok ∈
          (npHandleMessage h parse cfg leases topic payload { host := k }).2.trace →
        ∃ r macs, m = .response r (listBody "list".toList macs) ∧ Enumerates S macs

/-- A listing is passed on exactly when its last address ends within the 4095 bytes kept. -/
theorem listsExactly_iff_fits (cfg : Config) {k : κ} {S : Finset Mac} {p : Proc}
    {header trailer : Str} {es : List Str} (hp : (h.popen (listSetCmd cfg) k).1 = some p)
    (hl : IsListing p.out header trailer es) (hS : Enumerates S (es.map (List.map tolower))) :
    ListsExactly h parse S cfg k ↔ S = ∅ ∨ header.length + 21 * S.card ≤ 4098 := by
  have hcalls : (npNftList h cfg { host := k }).1 = some _ := npNftList_listing h cfg hp hl
  have hcount : S.card ≤ (4095 - header.length + 3) / 21 ↔
      S = ∅ ∨ header.length + 21 * S.card ≤ 4098 := by
    rw [← Finset.card_eq_zero]
    omega
  rw [← hcount, ← hS.take_iff]
  constructor
  · rintro ⟨⟨calls, hc, henum⟩, _⟩
    rw [hcalls, Option.some.injEq] at hc
    exact hc ▸ henum
  · intro henum
    refine ⟨⟨_, hcalls, henum⟩, fun leases topic payload haction m ok hm => ?_⟩
    rcases list_publishes h parse haction hm with hm | ⟨r, rfl⟩
    · cases hm
    · exact ⟨r, _, rfl, by rw [hcalls]; exact henum⟩

end Host

/-! ## nft's own listing -/

theorem macFree_iff_tails {s : Str} : MacFree s ↔ ∀ p ∈ s.tails, macAt p = false := by
  simp only [MacFree, List.mem_tails]

instance (s : Str) : Decidable (MacFree s) := decidable_of_iff' _ macFree_iff_tails

theorem elemsText_mem {es : List Str} (hes : ∀ e ∈ es, groups isxdigit isColon 5 e = true)
    {c : Char} (hc : c ∈ elemsText es) : c ≠ '\n' ∧ c ≠ '\x00' := by
  have helem : ∀ e ∈ es, c ∈ e → c ≠ '\n' ∧ c ≠ '\x00' := by
    intro e he hm
    rcases groups_mem (hes e he) c hm with hd | hs
    · constructor <;> (rintro rfl; exact absurd hd (by decide))
    · constructor <;> (rintro rfl; exact absurd hs (by decide))
  induction es using elemsText.induct with
  | case1 => cases hc
  | case2 e =>
    rw [elemsText, List.mem_append, List.mem_cons, List.mem_singleton] at hc
    rcases hc with (rfl | hc) | rfl
    · decide
    · exact helem e (by simp) hc
    · decide
  | case3 e es hne ih =>
    rw [elemsText.eq_3 e es hne] at hc
    simp only [List.cons_append, List.mem_cons, List.mem_append] at hc
    rcases hc with rfl | hc | rfl | rfl | rfl | hc
    · decide
    · exact helem e (by simp) hc
    · decide
    · decide
    · decide
    · exact ih (fun x hx => hes x (List.mem_cons_of_mem _ hx)) hc
        fun x hx => helem x (List.mem_cons_of_mem _ hx)

def nftSetText : Str :=
  "\x7b\"nftables\": [\x7b\"metainfo\": \x7b\"version\": \"1.0.8\"\x7d\x7d, ".toList ++
    "\x7b\"set\": \x7b\"family\": \"inet\", \"name\": \"blocked_macs\"".toList

def nftElemText : Str := ", \"elem\": [".toList

/-- The front of the line; a set without elements is printed without `elem`. -/
def nftHeader (es : List Str) : Str := nftSetText ++ if es = [] then [] else nftElemText

theorem nftHeader_length (es : List Str) : (nftHeader es).length ≤ 150 := by
  unfold nftHeader
  split <;> decide +kernel

def nftTrailer (es : List Str) : Str :=
  if es = [] then "\x7d\x7d]\x7d\n".toList else "]\x7d\x7d]\x7d\n".toList

/-- `nft -j list set inet netparent blocked_macs`. -/
def nftListing (es : List Str) : Str := nftHeader es ++ elemsText es ++ nftTrailer es

theorem nftSetText_clean : MacFree (nftSetText ++ nftElemText) ∧
    MacFree (nftSetText ++ [] ++ "\x7d\x7d]\x7d\n".toList) ∧
    (nftSetText.all fun c => c != '\n' && c != '\x00') = true := by
  decide +kernel

theorem clean_of_all {s : Str} (h : (s.all fun c => c != '\n' && c != '\x00') = true) {c : Char}
    (hc : c ∈ s) : c ≠ '\n' ∧ c ≠ '\x00' := by
  simpa using List.all_eq_true.mp h c hc

theorem nftHeader_mem {es : List Str} {c : Char} (hc : c ∈ nftHeader es) :
    c ≠ '\n' ∧ c ≠ '\x00' := by
  rcases List.mem_append.mp hc with hc | hc
  · exact clean_of_all nftSetText_clean.2.2 hc
  · split at hc
    · cases hc
    · exact clean_of_all (by decide) hc

theorem nftListing_isListing {es : List Str}
    (hes : ∀ e ∈ es, groups isxdigit isColon 5 e = true) :
    IsListing (nftListing es) (nftHeader es) (nftTrailer es) es := by
  have htrailer : '\x00' ∉ nftTrailer es ∧ '\n' ∉ (nftTrailer es).dropLast ∧ nftTrailer es ≠ [] := by
    unfold nftTrailer
    split <;> decide
  refine ⟨rfl, hes, ?_, ?_, ?_, ?_, ?_⟩
  · unfold nftHeader
    split
    · have := nftSetText_clean.2.1.take nftSetText.length
      rwa [List.append_assoc, List.take_left, ← List.append_nil nftSetText] at this
    · exact nftSetText_clean.1
  · unfold nftTrailer
    split <;> exact macFree_of_length (by decide)
  · rintro rfl
    exact nftSetText_clean.2.1
  · rw [nftListing, List.dropLast_append_of_ne_nil htrailer.2.2, List.mem_append, List.mem_append]
    rintro ((hm | hm) | hm)
    · exact (nftHeader_mem hm).1 rfl
    · exact (elemsText_mem hes hm).1 rfl
    · exact htrailer.2.1 hm
  · rw [nftListing, List.mem_append, List.mem_append]
    rintro ((hm | hm) | hm)
    · exact (nftHeader_mem hm).2 rfl
    · exact (elemsText_mem hes hm).2 rfl
    · exact htrailer.1 hm

/-- A machine on which nft only lists, and lists `es`. -/
def listingHost (es : List Str) (file : Option Str) : Host Unit where
  popen := fun _ k => (some ⟨nftListing es, 0⟩, k)
  system := fun _ k => (256, k)
  fopen := fun _ _ => file
  stat := fun _ _ => none
  time := fun k => (0, k)
  publish := fun _ _ _ k => (true, k)

def hexDigit (d : Fin 16) : Char := lowerHexDigits.get (d.cast (by decide))

theorem hexDigit_isLowerHex : ∀ d, isLowerHex (hexDigit d) = true := by decide

theorem hexDigit_injective : Function.Injective hexDigit := by
  unfold Function.Injective
  decide

/-- `02:00:00:00:00:<hi><lo>` -/
def numberedMac (d : Fin 16 × Fin 16) : Mac where
  text := "02:00:00:00:00:".toList ++ [hexDigit d.1, hexDigit d.2]
  canonical := by
    have h1 := hexDigit_isLowerHex d.1
    have h2 := hexDigit_isLowerHex d.2
    simp [isCanonical, groups, isLowerHex, isColon, lowerHexDigits] at h1 h2 ⊢
    exact ⟨h1, h2⟩

/-- `02:00:00:00:00:01` -/
def oneMac : Mac := numberedMac (0, 1)

/-- `02:00:00:00:00:02` -/
def twoMac : Mac := numberedMac (0, 2)

theorem numberedMac_injective : Function.Injective numberedMac := by
  intro a b hab
  have := List.append_cancel_left (congrArg Mac.text hab)
  simp only [List.cons.injEq, and_true] at this
  exact Prod.ext (hexDigit_injective this.1) (hexDigit_injective this.2)

/-- 256 addresses. -/
def numberedMacs : List Mac := (List.finRange 16 ×ˢ List.finRange 16).map numberedMac

theorem numberedMacs_nodup : numberedMacs.Nodup :=
  ((List.nodup_finRange 16).product (List.nodup_finRange 16)).map numberedMac_injective

/-- What a listing of the texts of distinct addresses enumerates. -/
theorem enumerates_texts {ms : List Mac} (hn : ms.Nodup) :
    Enumerates ms.toFinset ((ms.map Mac.text).map (List.map tolower)) := by
  have hlower : (ms.map Mac.text).map (List.map tolower) = ms.map Mac.text := by
    rw [List.map_map]
    exact List.map_congr_left fun m _ => canonical_lower m.canonical
  rw [hlower]
  exact ⟨hn.map Mac.text_injective, fun t => by simp⟩

theorem text_groups {ms : List Mac} : ∀ e ∈ ms.map Mac.text, groups isxdigit isColon 5 e = true := by
  intro e he
  obtain ⟨m, _, rfl⟩ := List.mem_map.mp he
  exact canonical_hex m.canonical

theorem listingHost_calls {es : List Str} (hes : ∀ e ∈ es, groups isxdigit isColon 5 e = true)
    (file : Option Str) (cfg : Config) :
    (npNftList (listingHost es file) cfg { host := () }).1 =
      some ((es.map (List.map tolower)).take ((4095 - (nftHeader es).length + 3) / 21)) :=
  npNftList_listing (p := ⟨nftListing es, 0⟩) (listingHost es file) cfg rfl (nftListing_isListing hes)

/-- 150 blocked addresses are passed on. -/
theorem listsExactly_numbered :
    ListsExactly (listingHost ((numberedMacs.take 150).map Mac.text) none) (fun _ => none)
      (numberedMacs.take 150).toFinset defaultConfig () := by
  have hlists : ∀ ms : List Mac, ms.Nodup → ms.length ≤ 150 → ListsExactly
      (listingHost (ms.map Mac.text) none) (fun _ => none) ms.toFinset defaultConfig () := by
    intro ms hnodup hlen
    refine (listsExactly_iff_fits _ _ defaultConfig (p := ⟨nftListing (ms.map Mac.text), 0⟩) rfl
      (nftListing_isListing text_groups) (enumerates_texts hnodup)).mpr (Or.inr ?_)
    have hheader := nftHeader_length (ms.map Mac.text)
    rw [List.toFinset_card_of_nodup hnodup]
    omega
  exact hlists _ (numberedMacs_nodup.sublist (List.take_sublist _ _)) (List.length_take_le _ _)

/-- A set of 256 addresses is listed completely by nft, and reported short. -/
theorem numberedMacs_cut :
    (∃ p, ((listingHost (numberedMacs.map Mac.text) none).popen (listSetCmd defaultConfig) ()).1 =
        some p ∧
      IsListing p.out (nftHeader (numberedMacs.map Mac.text))
        (nftTrailer (numberedMacs.map Mac.text)) (numberedMacs.map Mac.text)) ∧
    Enumerates numberedMacs.toFinset ((numberedMacs.map Mac.text).map (List.map tolower)) ∧
    ¬ ListsExactly (listingHost (numberedMacs.map Mac.text) none) (fun _ => none) numberedMacs.toFinset
      defaultConfig () := by
  have henum := enumerates_texts numberedMacs_nodup
  refine ⟨⟨_, rfl, nftListing_isListing text_groups⟩, henum, ?_⟩
  rintro ⟨⟨calls, hc, hexact⟩, _⟩
  have hlen : numberedMacs.length = 256 := by simp [numberedMacs, List.length_product]
  rw [listingHost_calls text_groups, Option.some.injEq] at hc
  rw [← hc, henum.take_iff, List.toFinset_card_of_nodup numberedMacs_nodup, hlen] at hexact
  omega

end Netparent
