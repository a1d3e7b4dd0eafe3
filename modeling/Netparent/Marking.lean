/-
  Which entries of the list are marked blocked, and which addresses have an entry.

  An entry is marked by the listing or by a lookup. Whatever part of nft's output was gathered, an
  address scanned from it is an element (`scanLoop_window`), so a mark of the listing is right, and
  every entry without one is looked up. So the marks are exact, however much of the set the listing
  missed (`blocked_exact`). Having an entry is another matter: the leases are put into the table first,
  and a reported address that finds it full gets none (`reported_listed_iff`).
-/
import Netparent.LeaseLines
import Netparent.Machine

namespace Netparent

/-! ## Windows -/

/-- Every address in the text is an element of the set. -/
def OnlyMembers (S : Finset Mac) (full : Str) : Prop :=
  ∀ p, p <:+ full → macAt p = true → ∃ m ∈ S, (p.take 17).map tolower = m.text

/-- What is scanned is the text of a window. -/
theorem scanLoop_window {k : Nat} {s t : Str} (ht : t ∈ scanLoop k s) :
    ∃ p, p <:+ s ∧ macAt p = true ∧ t = (p.take 17).map tolower := by
  induction s generalizing k with
  | nil => cases k <;> cases ht
  | cons c cs ih =>
    have hrest : ∀ {k}, t ∈ scanLoop k cs →
        ∃ p, p <:+ c :: cs ∧ macAt p = true ∧ t = (p.take 17).map tolower := fun hm => by
      obtain ⟨p, hp, hmac, he⟩ := ih hm
      exact ⟨p, hp.trans (List.suffix_cons c cs), hmac, he⟩
    cases k with
    | succ k => exact hrest ht
    | zero =>
      rw [scanLoop] at ht
      split at ht
      · next hmac =>
        rcases List.mem_cons.mp ht with rfl | ht
        · exact ⟨c :: cs, List.suffix_refl _, hmac, rfl⟩
        · exact hrest ht
      · exact hrest ht

/-- A window of a front part is a window of the whole. -/
theorem OnlyMembers.front {S : Finset Mac} {full buf : Str} (h : OnlyMembers S full)
    (hb : buf <+: full) : OnlyMembers S buf := by
  rintro p ⟨a, rfl⟩ hmac
  obtain ⟨b, rfl⟩ := hb
  have htake : (p ++ b).take 17 = p.take 17 := List.take_append_of_le_length (macAt_length hmac)
  have hwin := h (p ++ b) ⟨a, (List.append_assoc a p b).symm⟩ (by rw [macAt, htake]; exact hmac)
  rwa [htake] at hwin

theorem gatherLoop_front {size fuel : Nat} {buf stream : Str} (hnul : '\x00' ∉ stream) :
    gatherLoop size fuel buf stream <+: buf ++ stream := by
  induction fuel generalizing buf stream with
  | zero => exact List.prefix_append _ _
  | succ fuel ih =>
    unfold gatherLoop
    split
    · exact List.prefix_append _ _
    · next piece rest hf =>
      have happ := fgets_append hf
      split
      · have hpiece : cstr piece = piece := List.takeWhile_eq_self_iff.mpr fun c hc => by
          have : c ≠ '\x00' := fun he => hnul (by rw [← happ, ← he]; exact List.mem_append_left _ hc)
          simpa using this
        have hrest : '\x00' ∉ rest := fun hm => hnul (by rw [← happ]; exact List.mem_append_right _ hm)
        have hgo : gatherLoop size fuel (buf ++ piece) rest <+: buf ++ piece ++ rest := ih hrest
        rw [hpiece]
        rwa [List.append_assoc, happ] at hgo
      · exact List.prefix_append _ _

/-- Output without NUL is gathered as a front part of it. -/
theorem gather_front {size : Nat} {out : Str} (hnul : '\x00' ∉ out) : gather size out <+: out :=
  gatherLoop_front hnul

/-- What a listing yields when all it gathers is a front part, cut anywhere, of a text with the
    members' addresses only. -/
def ListsMembers (S : Finset Mac) (out : Str) : Prop :=
  ∃ full, gather 4096 out <+: full ∧ OnlyMembers S full

/-- Any cut of a text without NUL. -/
theorem OnlyMembers.cut {S : Finset Mac} {full : Str} (h : OnlyMembers S full)
    (hnul : '\x00' ∉ full) (n : Nat) : ListsMembers S (full.take n) :=
  ⟨full, (gather_front fun hm => hnul (List.mem_of_mem_take hm)).trans (List.take_prefix n full), h⟩

/-- A suffix of `a ++ b` begins in `a` or is a suffix of `b`. -/
theorem suffix_append_cases {α : Type} {p a b : List α} (h : p <:+ a ++ b) :
    p <:+ b ∨ ∃ t, t <:+ a ∧ p = t ++ b := by
  obtain ⟨s, hs⟩ := h
  rcases List.append_eq_append_iff.mp hs with ⟨t, rfl, rfl⟩ | ⟨t, rfl, rfl⟩
  · exact Or.inr ⟨t, List.suffix_append _ _, rfl⟩
  · exact Or.inl (List.suffix_append _ _)

/-- The windows of a quoted element and what follows it. -/
theorem window_quoted {e rest p : Str} (he : e.length = 17) (hp : p <:+ '"' :: e ++ '"' :: rest)
    (hmac : macAt p = true) : p.take 17 = e ∨ p <:+ rest := by
  have hskip : ∀ {c : Char} {q : Str}, isxdigit c = false → p <:+ c :: q → p <:+ q := by
    intro c q hc hq
    rcases List.suffix_cons_iff.mp hq with rfl | hq
    · rw [macAt_cons hmac] at hc
      cases hc
    · exact hq
  rw [List.cons_append] at hp
  rcases suffix_append_cases (hskip (by decide) hp) with hp | ⟨t, ht, rfl⟩
  · exact Or.inr (hskip (by decide) hp)
  · by_cases hlen : t.length = 17
    · have hte : t = e := ht.eq_of_length (hlen.trans he.symm)
      rw [hte, List.take_left' he]
      exact Or.inl rfl
    · have hshort : t.length < 17 := by
        have := ht.length_le
        omega
      have hmem : '"' ∈ (t ++ '"' :: rest).take 17 := by
        obtain ⟨k, hk⟩ : ∃ k, 17 - t.length = k + 1 := ⟨16 - t.length, by omega⟩
        rw [List.take_append, hk, List.take_succ_cons, List.mem_append]
        exact Or.inr List.mem_cons_self
      rcases macAt_mem hmac hmem with hd | hd <;> exact absurd hd (by decide)

theorem window_elems {es : List Str} (hes : ∀ e ∈ es, groups isxdigit isColon 5 e = true)
    {trailer p : Str} (ht : MacFree trailer) (hp : p <:+ elemsText es ++ trailer)
    (hmac : macAt p = true) : ∃ e ∈ es, p.take 17 = e := by
  have hfree : ∀ {q : Str}, MacFree q → ¬ p <:+ q := fun hq hs => by
    rw [hq p hs] at hmac
    cases hmac
  induction es using elemsText.induct with
  | case1 => exact absurd hp (hfree ht)
  | case2 e =>
    rw [elemsText_single] at hp
    rcases window_quoted (groups_length (hes e List.mem_cons_self)) hp hmac with he | hp
    · exact ⟨e, List.mem_cons_self, he⟩
    · exact absurd hp (hfree ht)
  | case3 e es hne ih =>
    rw [elemsText_cons hne] at hp
    rcases window_quoted (groups_length (hes e List.mem_cons_self)) hp hmac with he | hp
    · exact ⟨e, List.mem_cons_self, he⟩
    · have hp : p <:+ elemsText es ++ trailer := by
        rcases List.suffix_cons_iff.mp hp with rfl | hp
        · exact absurd (macAt_cons hmac) (by decide)
        · rcases List.suffix_cons_iff.mp hp with rfl | hp
          · exact absurd (macAt_cons hmac) (by decide)
          · exact hp
      obtain ⟨e', he', htake⟩ := ih (fun x hx => hes x (List.mem_cons_of_mem _ hx)) hp
      exact ⟨e', List.mem_cons_of_mem _ he', htake⟩

/-- The windows of a listing are its elements. -/
theorem IsListing.window {out header trailer p : Str} {es : List Str}
    (hl : IsListing out header trailer es) (hp : p <:+ out) (hmac : macAt p = true) :
    ∃ e ∈ es, p.take 17 = e := by
  rw [hl.out_eq, List.append_assoc] at hp
  rcases suffix_append_cases hp with hp | ⟨t, ht, rfl⟩
  · exact window_elems hl.elems hl.trailer_free hp hmac
  · by_cases he : es = []
    · have hfree := hl.empty_free he (t ++ trailer) (by
        obtain ⟨s, rfl⟩ := ht
        exact ⟨s, by rw [List.append_assoc]⟩)
      rw [he, elemsText, List.nil_append, hfree] at hmac
      cases hmac
    · obtain ⟨rest, hrest⟩ := elemsText_quote he
      rw [hrest, List.cons_append, macFree_before_quote (hl.header_free.suffix ht)] at hmac
      cases hmac

/-- nft's own listing of a set. -/
theorem nftListing_members (ms : List Mac) :
    OnlyMembers ms.toFinset (nftListing (ms.map Mac.text)) := by
  intro p hp hmac
  obtain ⟨e, he, htake⟩ := (nftListing_isListing text_groups).window hp hmac
  obtain ⟨m, hm, rfl⟩ := List.mem_map.mp he
  exact ⟨m, List.mem_toFinset.mpr hm, by rw [htake, canonical_lower m.canonical]⟩

/-! ## The mark -/

section Host

variable {κ : Type} {h : Host κ} {cfg : Config} {set : κ → Finset Mac}

/-- Lookups answer with membership, and reading leaves the set alone. -/
structure LooksUp (h : Host κ) (cfg : Config) (set : κ → Finset Mac) : Prop where
  asking : KeepsAsking h cfg fun w => set w.host
  get : ∀ (m : Mac) k, (h.system (getElementCmd cfg m.text) k).1 ≠ -1 ∧
    ((h.system (getElementCmd cfg m.text) k).1 = 0 ↔ m ∈ set k)

theorem Mac.text_mem_iff {S : Finset Mac} (m : Mac) : (∃ m' ∈ S, m'.text = m.text) ↔ m ∈ S := by
  constructor
  · rintro ⟨m', hm', he⟩
    rwa [← Mac.text_injective he]
  · intro hm
    exact ⟨m, hm, rfl⟩

/-- A mark is right. -/
def RightlyMarked (S : Finset Mac) (d : Dev) : Prop := d.blocked = true → ∃ m ∈ S, m.text = d.mac

theorem rightlyMarked_mergeDev {S : Finset Mac} {e d : Dev} (hmac : e.mac = d.mac)
    (he : RightlyMarked S e) (hd : RightlyMarked S d) : RightlyMarked S (mergeDev e d) := by
  intro hb
  change ∃ m ∈ S, m.text = e.mac
  by_cases hblocked : d.blocked = true
  · rw [hmac]
    exact hd hblocked
  · have hkept : (mergeDev e d).blocked = e.blocked := if_neg hblocked
    exact he (hkept.symm.trans hb)

theorem merge_rightlyMarked {S : Finset Mac} {records : List Dev}
    (hr : ∀ d ∈ records, RightlyMarked S d) : ∀ d ∈ merge records, RightlyMarked S d := by
  rw [merge, addOrMerge_eq]
  exact Keyed.forall_foldl (fun _ _ => rightlyMarked_mergeDev) (fun _ hd => absurd hd List.not_mem_nil) hr

theorem reportedMacs_members {S : Finset Mac} {w : World κ}
    (hl : ∀ p, (h.popen (listSetCmd cfg) w.host).1 = some p → ListsMembers S p.out) {t : Str}
    (ht : t ∈ reportedMacs h cfg w) : ∃ m ∈ S, m.text = t := by
  unfold reportedMacs npNftList World.popen at ht
  cases hp : (h.popen (listSetCmd cfg) w.host).1 with
  | none =>
    rw [hp] at ht
    cases ht
  | some p =>
    rw [hp] at ht
    obtain ⟨full, hcut, hfull⟩ := hl p hp
    obtain ⟨q, hq, hmac, rfl⟩ := scanLoop_window ht
    obtain ⟨m, hm, he⟩ := hfull.front hcut q hq hmac
    exact ⟨m, hm, he.symm⟩

/-- Every mark of the merged records is right: the file marks none. -/
theorem mergedRecords_rightlyMarked {S : Finset Mac} {path : Str} {w : World κ}
    (hreport : ∀ t ∈ reportedMacs h cfg (fileRecords h path w).2, ∃ m ∈ S, m.text = t) :
    ∀ d ∈ mergedRecords h cfg path w, RightlyMarked S d := by
  intro d hd hb
  rcases List.mem_append.mp hd with hd | hd
  · rw [(fileRecords_canonical h hd).2] at hb
    cases hb
  · obtain ⟨t, ht, rfl⟩ := List.mem_map.mp hd
    rw [blockedDev_canonical (reportedMacs_canonical h ht)]
    exact hreport t ht

/-- The blocked entries are those of the set. -/
def ExactlyMarked (S : Finset Mac) (list : List Dev) : Prop :=
  ∀ d ∈ list, d.blocked = true ↔ ∃ m ∈ S, m.text = d.mac

/-- Marking: right marks stay, the entries without one are looked up. -/
theorem markBlocked_exact (hlook : LooksUp h cfg set) {ds : List Dev} {w : World κ}
    (hcanon : ∀ d ∈ ds, isCanonical d.mac = true)
    (hright : ∀ d ∈ ds, RightlyMarked (set w.host) d) :
    ExactlyMarked (set w.host) (markBlocked h cfg ds w).1 := by
  induction ds generalizing w with
  | nil => exact fun d hd => absurd hd List.not_mem_nil
  | cons e es ih =>
    have hcanon' : ∀ d ∈ es, isCanonical d.mac = true := fun d hd => hcanon d (List.mem_cons_of_mem _ hd)
    have hright' : ∀ d ∈ es, RightlyMarked (set w.host) d :=
      fun d hd => hright d (List.mem_cons_of_mem _ hd)
    have he := hright e List.mem_cons_self
    rw [markBlocked]
    split
    · next hb =>
      exact List.forall_mem_cons.mpr ⟨iff_of_true hb (he hb), ih hcanon' hright'⟩
    · -- an entry without a mark: the lookup decides
      obtain ⟨m, hm⟩ : ∃ m : Mac, m.text = e.mac := ⟨⟨e.mac, hcanon e List.mem_cons_self⟩, rfl⟩
      have hkeep : set (npNftIsBlocked h cfg e.mac w).2.host = set w.host :=
        hlook.asking.npNftIsBlocked e.mac w
      have hrest := ih (w := (npNftIsBlocked h cfg e.mac w).2) hcanon' (by rwa [hkeep])
      rw [hkeep] at hrest
      refine List.forall_mem_cons.mpr ⟨?_, hrest⟩
      have hfst : (npNftIsBlocked h cfg e.mac w).1 = _ := npNftIsBlocked_fst e.mac w
      rw [← hm, normMac_text] at hfst
      dsimp only at hfst ⊢
      rw [if_neg (hlook.get m w.host).1] at hfst
      rw [← hm, hfst]
      have hmem : (∃ m' ∈ set w.host, m'.text = m.text) ↔ m ∈ set w.host := m.text_mem_iff
      rw [hmem, ← (hlook.get m w.host).2]
      by_cases hz : (h.system (getElementCmd cfg m.text) w.host).1 = 0 <;> simp [hz]

/-- What a rebuild marks, when all that is reported to it is in the set. -/
theorem rebuild_exactlyMarked (hlook : LooksUp h cfg set) {l : NpLeases} {w : World κ}
    (hreport : ∀ t ∈ reportedMacs h cfg (fileRecords h l.path w).2, ∃ m ∈ set w.host, m.text = t) :
    ExactlyMarked (set w.host) (rebuild h cfg l w).1.list := by
  have hfile : set (fileRecords h l.path w).2.host = set w.host :=
    hlook.asking.fileRecords l.path w
  have hlisted : set (npNftList h cfg (fileRecords h l.path w).2).2.host = set w.host :=
    (hlook.asking.npNftList _).trans hfile
  have hright : ∀ d ∈ merge (mergedRecords h cfg l.path w), RightlyMarked (set w.host) d :=
    merge_rightlyMarked (mergedRecords_rightlyMarked hreport)
  have hcanon : ∀ d ∈ merge (mergedRecords h cfg l.path w), isCanonical d.mac = true := by
    intro d hd
    obtain ⟨r, hr, he⟩ := List.mem_map.mp (merge_mac_mem (List.mem_map_of_mem (f := Dev.mac) hd))
    rw [← he]
    exact mergedRecords_canonical h hr
  intro d hd
  rw [rebuild_list_eq, (sortDevs_perm _).mem_iff] at hd
  have hmark := markBlocked_exact hlook hcanon (by rwa [hlisted]) d hd
  rwa [hlisted] at hmark

/-- **The mark is exact**, at any size of the file and the set, and however little of the set the
    listing gave. -/
theorem blocked_exact (hlook : LooksUp h cfg set)
    (hlist : ∀ k p, (h.popen (listSetCmd cfg) k).1 = some p → ListsMembers (set k) p.out)
    (l : NpLeases) (w : World κ) : ExactlyMarked (set w.host) (rebuild h cfg l w).1.list := by
  have hfile : set (fileRecords h l.path w).2.host = set w.host :=
    hlook.asking.fileRecords l.path w
  refine rebuild_exactlyMarked hlook fun t ht => reportedMacs_members (fun p hp => ?_) ht
  rw [← hfile]
  exact hlist _ p hp

end Host

theorem Sim.looksUp {cfg : Config} (hfit : Sim.NamesFit cfg) :
    LooksUp (Sim.host cfg) cfg Sim.blockedSet where
  asking := (Sim.host_quiet hfit Sim.blockedSet).keepsAll.toKeepsAsking
  get := (Sim.host_works hfit).get

theorem Sim.listsMembers {cfg : Config} {k : Sim} {p : Proc}
    (hp : ((Sim.host cfg).popen (listSetCmd cfg) k).1 = some p) :
    ListsMembers k.blockedSet p.out := by
  rw [show (Sim.host cfg).popen = Sim.popen cfg from rfl, Sim.popen_list, Option.some.injEq] at hp
  have hlist : IsListing (nftListing (k.blocked.map Mac.text)) _ _ _ :=
    nftListing_isListing text_groups
  rw [← hp]
  exact ⟨_, gather_front hlist.no_nul, nftListing_members k.blocked⟩

/-- One address in the set, leases for it and another. -/
theorem blocked_exact_twoLeases : ExactlyMarked [oneMac].toFinset
    (rebuild (Sim.host defaultConfig) defaultConfig (npLeasesCreate none)
      { host := ⟨[oneMac], List.nodup_singleton _, some twoLeases, none, 0⟩ }).1.list :=
  blocked_exact (Sim.looksUp (by unfold Sim.NamesFit; decide)) (fun _ _ hp => Sim.listsMembers hp) _ _

/-! ## Which addresses have an entry -/

/-- The first 256 different addresses of the records. -/
def firstMacs (records : List Dev) : List Str := Keyed.firstKeys Dev.mac maxDevices records

theorem merge_macs (records : List Dev) : (merge records).map Dev.mac = firstMacs records := by
  rw [merge, addOrMerge_eq]
  exact Keyed.keys_foldl_nil mergeDev_mac records

section Host

variable {κ : Type} (h : Host κ)

/-- Every reported address has an entry in the list, and in the snapshot a republish ends with. -/
def ReportedListed (cfg : Config) (l : NpLeases) (w : World κ) : Prop :=
  ∀ t ∈ reportedMacs h cfg (fileRecords h l.path w).2,
    t ∈ (rebuild h cfg l w).1.list.map Dev.mac ∧
    ∃ before updatedAt list, messagesOf (npLeasesRepublish h cfg l w).2.trace =
      before ++ [.devices updatedAt list] ∧ t ∈ list.map Dev.mac

theorem reportedListed_iff_rebuild (cfg : Config) (l : NpLeases) (w : World κ) :
    ReportedListed h cfg l w ↔ ∀ t ∈ reportedMacs h cfg (fileRecords h l.path w).2,
      t ∈ (rebuild h cfg l w).1.list.map Dev.mac := by
  obtain ⟨updatedAt, hm⟩ := npLeasesRepublish_messages h cfg l w
  exact ⟨fun hr t ht => (hr t ht).1, fun hr t ht => ⟨hr t ht, _, updatedAt, _, hm, hr t ht⟩⟩

/-- What the table has room for. -/
theorem rebuild_listed_iff (cfg : Config) (l : NpLeases) (w : World κ) :
    (∀ t ∈ reportedMacs h cfg (fileRecords h l.path w).2,
      t ∈ (rebuild h cfg l w).1.list.map Dev.mac) ↔
      (firstMacs (fileRecords h l.path w).1 ++
        reportedMacs h cfg (fileRecords h l.path w).2).toFinset.card ≤ maxDevices := by
  have hfold : merge (mergedRecords h cfg l.path w) =
      ((reportedMacs h cfg (fileRecords h l.path w).2).map blockedDev).foldl
        (Keyed.upsert Dev.mac mergeDev maxDevices) (merge (fileRecords h l.path w).1) := by
    rw [mergedRecords, merge, List.foldl_append, merge, addOrMerge_eq]
  have hmacs : ∀ t, t ∈ (rebuild h cfg l w).1.list.map Dev.mac ↔
      t ∈ (merge (mergedRecords h cfg l.path w)).map Dev.mac :=
    fun t => (rebuild_macs_perm h cfg l w).mem_iff
  have hkey : ∀ t ∈ reportedMacs h cfg (fileRecords h l.path w).2, (blockedDev t).mac = t :=
    fun t ht => by rw [blockedDev_canonical (reportedMacs_canonical h ht)]
  constructor
  · intro hall
    -- all these addresses are keys of the table, which has at most 256
    have hsub : (firstMacs (fileRecords h l.path w).1 ++
        reportedMacs h cfg (fileRecords h l.path w).2).toFinset ⊆
          ((merge (mergedRecords h cfg l.path w)).map Dev.mac).toFinset := by
      intro t ht
      rw [List.mem_toFinset, List.mem_append] at ht
      rw [List.mem_toFinset]
      rcases ht with ht | ht
      · rw [hfold]
        exact Keyed.keys_foldl_mono mergeDev_mac (by rwa [merge_macs])
      · exact (hmacs t).mp (hall t ht)
    refine (Finset.card_le_card hsub).trans ((List.toFinset_card_le _).trans ?_)
    rw [List.length_map]
    exact merge_length _
  · intro hc t ht
    rw [hmacs, hfold]
    refine (Keyed.keys_foldl mergeDev_mac hc (merge_nodup _) (fun k hk => ?_) fun d hd => ?_).mpr
      (Or.inr ?_)
    · rw [merge_macs] at hk
      exact List.mem_toFinset.mpr (List.mem_append_left _ hk)
    · obtain ⟨t, ht, rfl⟩ := List.mem_map.mp hd
      rw [hkey t ht]
      exact List.mem_toFinset.mpr (List.mem_append_right _ ht)
    · rw [List.map_map]
      exact List.mem_map.mpr ⟨t, ht, hkey t ht⟩

/-- **Reported addresses are listed** exactly when, with the first 256 different addresses of
    the lease file, they are at most 256. -/
theorem reported_listed_iff (cfg : Config) (l : NpLeases) (w : World κ) :
    ReportedListed h cfg l w ↔
      (firstMacs (fileRecords h l.path w).1 ++
        reportedMacs h cfg (fileRecords h l.path w).2).toFinset.card ≤ maxDevices :=
  (reportedListed_iff_rebuild h cfg l w).trans (rebuild_listed_iff h cfg l w)

end Host

/-! ## A full table -/

theorem Mac.text_word (m : Mac) : IsWord m.text := by
  refine ⟨fun he => ?_, spelling_forall ?_ (canonical_groups m.canonical)⟩
  · have := groups_length m.canonical
    rw [he] at this
    cases this
  · simp [hexDigits, lowerHexDigits, isspace]

/-- The lease of an address. -/
def Mac.lease (m : Mac) : LeaseLine where
  expiry := 0
  mac := m.text
  ip := ['*']
  hostname := ['*']
  clientId := ['*']
  expiry_long := by decide
  mac_word := ⟨m.text_word, by rw [groups_length m.canonical]; decide⟩
  ip_word := ⟨⟨by decide, by simp [isspace]⟩, by decide⟩
  hostname_word := ⟨⟨by decide, by simp [isspace]⟩, by decide⟩
  clientId_word := ⟨by decide, by simp [isspace]⟩

/-- The records of a file with a lease for each address. -/
theorem fileRecords_leases (es : List Str) (ms : List Mac) (path : Str) (w : World Unit) :
    (fileRecords (listingHost es (some (fileText (ms.map Mac.lease) true))) path w).1.map Dev.mac =
      ms.map Mac.text := by
  have hmac : ∀ ds : List Dev, ds.map Dev.mac = (ds.map Dev.unseen).map Dev.mac := fun ds => by
    rw [List.map_map]
    rfl
  have hrecords := fileText_records (listingHost es (some (fileText (ms.map Mac.lease) true)))
    (ms.map Mac.lease) true (w.fopen (listingHost es (some (fileText (ms.map Mac.lease) true))) path).2
  have hrecord : ∀ m : Mac, m.lease.record.map Dev.mac = some m.text := fun m => by
    rw [LeaseLine.record, Option.map_map, show m.lease.mac = m.text from rfl,
      npMacNormalize_text]
    rfl
  rw [hmac]
  refine (congrArg (List.map Dev.mac) hrecords).trans ?_
  rw [List.map_filterMap, List.filterMap_map,
    show (fun l : LeaseLine => l.record.map Dev.mac) ∘ Mac.lease = some ∘ Mac.text from funext hrecord]
  exact congrFun List.filterMap_eq_map ms

/-- `aa:bb:cc:dd:ee:ff` -/
def straggler : Mac := ⟨"aa:bb:cc:dd:ee:ff".toList, by decide⟩

theorem straggler_unnumbered : straggler ∉ numberedMacs := by
  intro hm
  obtain ⟨d, _, hd⟩ := List.mem_map.mp hm
  have := congrArg (fun m : Mac => m.text.head?) hd
  exact absurd this (by decide : ¬ some '0' = some 'a')

/-- A network with 256 leases, and another address in the blocked set. -/
def crowded : Host Unit :=
  listingHost ([straggler].map Mac.text) (some (fileText (numberedMacs.map Mac.lease) true))

theorem crowded_reported (w : World Unit) : reportedMacs crowded defaultConfig w = [straggler.text] := by
  rw [reportedMacs_host]
  unfold reportedMacs crowded
  rw [listingHost_calls text_groups]
  decide +kernel

/-- The blocked address, the only one reported, has no entry. -/
theorem crowded_out : reportedMacs crowded defaultConfig
      (fileRecords crowded "f".toList { host := () }).2 = [straggler.text] ∧
    ¬ ReportedListed crowded defaultConfig (npLeasesCreate (some "f".toList)) { host := () } := by
  refine ⟨crowded_reported _, fun hlisted => ?_⟩
  have hroom := (rebuild_listed_iff crowded defaultConfig (npLeasesCreate (some "f".toList))
    { host := () }).mp fun t ht => (hlisted t ht).1
  have hfile := fileRecords_leases ([straggler].map Mac.text) numberedMacs "f".toList
    { host := () }
  have hlen : numberedMacs.length = 256 := by simp [numberedMacs, List.length_product]
  have hcard : ((fileRecords crowded "f".toList { host := () }).1.map Dev.mac).toFinset.card ≤
      maxDevices := by
    refine (List.toFinset_card_le _).trans ?_
    rw [crowded, hfile, List.length_map, hlen]
    exact Nat.le_refl _
  have hsub : ((straggler :: numberedMacs).map Mac.text).toFinset ⊆
      (firstMacs (fileRecords crowded "f".toList { host := () }).1 ++
        reportedMacs crowded defaultConfig (fileRecords crowded "f".toList { host := () }).2).toFinset := by
    intro t ht
    rw [List.mem_toFinset, List.map_cons, List.mem_cons] at ht
    rw [List.mem_toFinset, List.mem_append]
    rcases ht with rfl | ht
    · rw [crowded_reported]
      exact Or.inr (List.mem_singleton_self _)
    · rw [← merge_macs, merge_mac_iff hcard, crowded, hfile]
      exact Or.inl ht
  have hnodup : ((straggler :: numberedMacs).map Mac.text).Nodup :=
    (List.nodup_cons.mpr ⟨straggler_unnumbered, numberedMacs_nodup⟩).map Mac.text_injective
  have hle := (Finset.card_le_card hsub).trans hroom
  rw [List.toFinset_card_of_nodup hnodup, List.length_map, List.length_cons, hlen] at hle
  exact absurd hle (by decide)

end Netparent
