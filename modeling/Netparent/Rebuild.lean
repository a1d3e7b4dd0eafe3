/-
  `rebuild` computes the union of the lease file's records and the blocked addresses.

  The table of `add_or_merge` is a bounded keyed table (`Lib/Keyed`), so the merged list holds
  under each address its records merged in order (`find?_merge`), and the last record with a
  value decides each field (`merge_field`). Marking and sorting keep the entries, so the
  result is a `Snapshot`: strictly ascending, canonical, within the table's size. The order of
  the reported addresses does not matter: it changes neither the merged entries (`merge_reported_perm`) nor
  the marks (`markBlocked_perm`).
-/
import Netparent.Listing
import Netparent.Lib.Keyed
import Netparent.Lib.Register

namespace Netparent

/-! ## The table -/

theorem mergeFirst_eq (d : Dev) (list : List Dev) :
    mergeFirst d list = Keyed.mergeInto Dev.mac mergeDev d list := by
  induction list with
  | nil => rfl
  | cons e es ih =>
    rw [mergeFirst, Keyed.mergeInto, ih]
    by_cases h : e.mac = d.mac
    · rw [if_pos (strcmp_eq_zero.mpr h), if_pos h]
    · rw [if_neg (mt strcmp_eq_zero.mp h), if_neg h]

theorem addOrMerge_eq : addOrMerge = Keyed.upsert Dev.mac mergeDev maxDevices := by
  funext list d
  rw [addOrMerge, Keyed.upsert, mergeFirst_eq]
  cases Keyed.mergeInto Dev.mac mergeDev d list <;> rfl

theorem mergeDev_mac (e d : Dev) : (mergeDev e d).mac = e.mac := rfl

/-- The table a list of records makes. -/
def merge (records : List Dev) : List Dev := records.foldl addOrMerge []

theorem merge_nodup (records : List Dev) : ((merge records).map Dev.mac).Nodup := by
  rw [merge, addOrMerge_eq]
  exact Keyed.nodup_foldl mergeDev_mac List.nodup_nil

theorem merge_length (records : List Dev) : (merge records).length ≤ maxDevices := by
  rw [merge, addOrMerge_eq]
  exact Keyed.length_foldl_le mergeDev_mac (Nat.zero_le _)

theorem merge_mac_mem {records : List Dev} {t : Str} (h : t ∈ (merge records).map Dev.mac) :
    t ∈ records.map Dev.mac := by
  rw [merge, addOrMerge_eq] at h
  rcases Keyed.keys_foldl_subset mergeDev_mac h with h | h
  · cases h
  · exact h

theorem find?_merge {records : List Dev} (hc : (records.map Dev.mac).toFinset.card ≤ maxDevices)
    (k : Str) :
    Keyed.find? Dev.mac k (merge records) =
      (records.filter fun d => decide (d.mac = k)).foldl (Keyed.absorb mergeDev) none := by
  rw [merge, addOrMerge_eq]
  exact Keyed.find?_foldl (l := []) mergeDev_mac hc List.nodup_nil
    (fun _ hk => absurd hk List.not_mem_nil)
    (fun d hd => List.mem_toFinset.mpr (List.mem_map_of_mem hd)) k

theorem merge_mac_iff {records : List Dev}
    (hc : (records.map Dev.mac).toFinset.card ≤ maxDevices) {t : Str} :
    t ∈ (merge records).map Dev.mac ↔ t ∈ records.map Dev.mac := by
  have := Keyed.keys_foldl (l := []) (k := t) mergeDev_mac hc List.nodup_nil
    (fun _ hk => absurd hk List.not_mem_nil)
    (fun d hd => List.mem_toFinset.mpr (List.mem_map_of_mem hd))
  rw [merge, addOrMerge_eq, this]
  simp

/-- The field `sel` of the last record for `mac` that has a value there, else `zero`. -/
def lastOf {β : Type} [DecidableEq β] (sel : Dev → β) (zero : β) (mac : Str)
    (records : List Dev) : β :=
  Register.final (fun r => if r.mac = mac ∧ sel r ≠ zero then some (sel r) else none) zero records

/-- A field that a merge takes from the newer record whenever it has a value there. -/
def Prefers {β : Type} [DecidableEq β] (sel : Dev → β) (zero : β) : Prop :=
  ∀ e d, sel (mergeDev e d) = if sel d ≠ zero then sel d else sel e

theorem prefers_ip : Prefers Dev.ip [] := fun _ _ => rfl
theorem prefers_hostname : Prefers Dev.hostname [] := fun _ _ => rfl
theorem prefers_leaseExpires : Prefers Dev.leaseExpires 0 := fun _ _ => rfl
theorem prefers_lastSeen : Prefers Dev.lastSeen 0 := fun _ _ => rfl

/-- An entry's records merged in order: an address in the table lost none of its records. -/
theorem find?_merge_of_mem {records : List Dev} {e : Dev} (he : e ∈ merge records) :
    (records.filter fun d => decide (d.mac = e.mac)).foldl (Keyed.absorb mergeDev) none =
      some e := by
  have hmac : e.mac ∈ (merge records).map Dev.mac := List.mem_map_of_mem he
  rw [← Keyed.find?_of_mem (merge_nodup records) he]
  rw [merge, addOrMerge_eq] at hmac ⊢
  exact (Keyed.find?_foldl_of_mem mergeDev_mac hmac).symm

theorem merge_field {β : Type} [DecidableEq β] {sel : Dev → β} {zero : β} (hp : Prefers sel zero)
    {records : List Dev} {e : Dev} (he : e ∈ merge records) :
    sel e = lastOf sel zero e.mac records := by
  have hstep : ∀ (o : Option Dev) (d : Dev), ((Keyed.absorb mergeDev o d).map sel).getD zero =
      (if sel d ≠ zero then some (sel d) else none).getD ((o.map sel).getD zero) := by
    intro o d
    cases o with
    | none => by_cases hd : sel d = zero <;> simp [Keyed.absorb, hd]
    | some e =>
      have := hp e d
      by_cases hd : sel d = zero <;> simp_all [Keyed.absorb]
  have hfold := Register.obs_foldl (fun o => (o.map sel).getD zero) hstep none
    (records.filter fun d => decide (d.mac = e.mac))
  rw [find?_merge_of_mem he, Register.final_filter] at hfold
  refine hfold.trans (congrArg (fun touch => Register.final touch zero records) ?_)
  funext r
  by_cases hr : r.mac = e.mac <;> simp [hr]

/-! ## The two sources -/

section Host

variable {κ : Type} (h : Host κ)

/-- The records of the lines that parse, in order. -/
def parsedLines : List Str → World κ → List Dev × World κ
  | [], w => ([], w)
  | line :: lines, w =>
      let p := parseLeaseLine h (cstr line) w
      let r := parsedLines lines p.2
      (p.1.toList ++ r.1, r.2)

/-- The records of the lease file. -/
def fileRecords (path : Str) (w : World κ) : List Dev × World κ :=
  let r := w.fopen h path
  match r.1 with
  | some content => parsedLines h (fgetsLines 512 content) r.2
  | none => ([], r.2)

/-- The addresses `np_nft_list` reports to `rebuild`. -/
def reportedMacs (cfg : Config) (w : World κ) : List Str := (npNftList h cfg w).1.getD []

theorem leaseLoop_eq (lines : List Str) (list : List Dev) (w : World κ) :
    leaseLoop h lines list w =
      ((parsedLines h lines w).1.foldl addOrMerge list, (parsedLines h lines w).2) := by
  induction lines generalizing list w with
  | nil => rfl
  | cons line lines ih =>
    rw [leaseLoop, parsedLines]
    dsimp only
    cases hp : (parseLeaseLine h (cstr line) w).1 with
    | none => exact ih list _
    | some d => exact ih (addOrMerge list d) _

theorem readLeases_eq (path : Str) (w : World κ) :
    readLeases h path w = (merge (fileRecords h path w).1, (fileRecords h path w).2) := by
  unfold readLeases fileRecords
  cases hf : (w.fopen h path).1 with
  | none => simp only [hf]; rfl
  | some content =>
    simp only [hf]
    exact leaseLoop_eq h _ _ _

theorem leaseRecord_canonical {f : LeaseFields} {now : Int} {d : Dev}
    (hd : leaseRecord f now = some d) : isCanonical d.mac = true ∧ d.blocked = false := by
  obtain ⟨norm, hn, rfl⟩ := Option.map_eq_some_iff.mp hd
  exact ⟨npMacNormalize_canonical hn, rfl⟩

theorem parseLeaseLine_canonical {line : Str} {w : World κ} {d : Dev}
    (hd : (parseLeaseLine h line w).1 = some d) : isCanonical d.mac = true ∧ d.blocked = false := by
  unfold parseLeaseLine at hd
  split at hd
  · cases hd
  · split at hd
    · cases hd
    · exact leaseRecord_canonical hd

/-- A record is stamped with the clock as it is when its line is read. -/
theorem parseLeaseLine_lastSeen {line : Str} {w : World κ} {d : Dev}
    (hd : (parseLeaseLine h line w).1 = some d) : d.lastSeen = (w.time h).1 := by
  unfold parseLeaseLine at hd
  split at hd
  · cases hd
  · split at hd
    · cases hd
    · obtain ⟨norm, _, rfl⟩ := Option.map_eq_some_iff.mp hd
      rfl

theorem parsedLines_canonical {lines : List Str} {w : World κ} {d : Dev}
    (hd : d ∈ (parsedLines h lines w).1) : isCanonical d.mac = true ∧ d.blocked = false := by
  induction lines generalizing w with
  | nil => cases hd
  | cons line lines ih =>
    rcases List.mem_append.mp hd with hd | hd
    · exact parseLeaseLine_canonical h (Option.mem_toList.mp hd)
    · exact ih hd

/-- A record of the file has a canonical address and is not marked. -/
theorem fileRecords_canonical {path : Str} {w : World κ} {d : Dev}
    (hd : d ∈ (fileRecords h path w).1) : isCanonical d.mac = true ∧ d.blocked = false := by
  unfold fileRecords at hd
  dsimp only at hd
  split at hd
  · exact parsedLines_canonical h hd
  · cases hd

theorem scanLoop_canonical {k : Nat} {s t : Str} (ht : t ∈ scanLoop k s) :
    isCanonical t = true := by
  induction s generalizing k with
  | nil => cases k <;> cases ht
  | cons c cs ih =>
    cases k with
    | succ k => exact ih ht
    | zero =>
      rw [scanLoop] at ht
      split at ht
      · next hm =>
        rcases List.mem_cons.mp ht with rfl | ht
        · exact groups_lower hm
        · exact ih ht
      · exact ih ht

theorem reportedMacs_canonical {cfg : Config} {w : World κ} {t : Str}
    (ht : t ∈ reportedMacs h cfg w) : isCanonical t = true := by
  unfold reportedMacs npNftList at ht
  dsimp only at ht
  split at ht
  · cases ht
  · exact scanLoop_canonical ht

theorem blockedDev_canonical {t : Str} (ht : isCanonical t = true) :
    blockedDev t = { mac := t, blocked := true } := by
  have hlen : t.length ≤ 17 := (groups_length ht).le
  rw [blockedDev, List.take_of_length_le hlen, canonical_lower ht]

/-- All records `rebuild` merges: the file's, then one for each reported address. -/
def mergedRecords (cfg : Config) (path : Str) (w : World κ) : List Dev :=
  (fileRecords h path w).1 ++ (reportedMacs h cfg (fileRecords h path w).2).map blockedDev

theorem rebuild_list_eq (cfg : Config) (l : NpLeases) (w : World κ) :
    (rebuild h cfg l w).1.list =
      sortDevs (markBlocked h cfg (merge (mergedRecords h cfg l.path w))
        (npNftList h cfg (fileRecords h l.path w).2).2).1 := by
  rw [rebuild, readLeases_eq, mergedRecords, merge, merge, List.foldl_append, List.foldl_map]
  rfl

theorem mergedRecords_canonical {cfg : Config} {path : Str} {w : World κ} {d : Dev}
    (hd : d ∈ mergedRecords h cfg path w) : isCanonical d.mac = true := by
  rcases List.mem_append.mp hd with hd | hd
  · exact (fileRecords_canonical h hd).1
  · obtain ⟨t, ht, rfl⟩ := List.mem_map.mp hd
    have hc := reportedMacs_canonical h ht
    rw [blockedDev_canonical hc]
    exact hc

theorem mergedRecords_macs (cfg : Config) (path : Str) (w : World κ) :
    (mergedRecords h cfg path w).map Dev.mac =
      (fileRecords h path w).1.map Dev.mac ++ reportedMacs h cfg (fileRecords h path w).2 := by
  rw [mergedRecords, List.map_append, List.map_map]
  congr 1
  conv_rhs => rw [← List.map_id (reportedMacs h cfg (fileRecords h path w).2)]
  refine List.map_congr_left fun t ht => ?_
  rw [Function.comp_apply, blockedDev_canonical (reportedMacs_canonical h ht)]
  rfl

/-! ## Marking and sorting -/

/-- A device without its mark. -/
def Dev.unmarked (d : Dev) : Dev := { d with blocked := false }

theorem markBlocked_unmarked (cfg : Config) (ds : List Dev) (w : World κ) :
    (markBlocked h cfg ds w).1.map Dev.unmarked = ds.map Dev.unmarked := by
  induction ds generalizing w with
  | nil => rfl
  | cons d ds ih =>
    rw [markBlocked]
    split
    · simp only [List.map_cons, ih]
    · simp only [List.map_cons, ih]
      rfl

theorem mem_markBlocked {cfg : Config} {ds : List Dev} {w : World κ} {d : Dev}
    (hd : d ∈ (markBlocked h cfg ds w).1) : ∃ e ∈ ds, e.unmarked = d.unmarked := by
  have : d.unmarked ∈ ds.map Dev.unmarked := by
    rw [← markBlocked_unmarked h cfg ds w]
    exact List.mem_map_of_mem hd
  exact List.mem_map.mp this

theorem markBlocked_macs (cfg : Config) (ds : List Dev) (w : World κ) :
    (markBlocked h cfg ds w).1.map Dev.mac = ds.map Dev.mac := by
  have hmac : ∀ l : List Dev, l.map Dev.mac = (l.map Dev.unmarked).map Dev.mac := fun l => by
    rw [List.map_map]; rfl
  rw [hmac, markBlocked_unmarked, ← hmac]

/-- nft is asked about the unmarked entries only, in their order; the rest stay. -/
theorem markBlocked_perm (cfg : Config) (ds : List Dev) (w : World κ) :
    (markBlocked h cfg ds w).1.Perm
      (ds.filter Dev.blocked ++ (markBlocked h cfg (ds.filter fun d => !d.blocked) w).1) := by
  induction ds generalizing w with
  | nil => exact List.Perm.refl _
  | cons d ds ih =>
    rw [markBlocked]
    cases hb : d.blocked with
    | true => simpa [hb] using (ih w).cons d
    | false =>
      simp only [Bool.false_eq_true, if_false, List.filter_cons, hb, Bool.not_false, if_true]
      rw [markBlocked, hb]
      exact ((ih _).cons _).trans List.perm_middle.symm

theorem sortDevs_perm (list : List Dev) : (sortDevs list).Perm list :=
  List.perm_insertionSort _ _

theorem strcmp_le {a b : Str} : strcmp a b ≤ 0 ↔ a ≤ b := by
  rw [le_iff_lt_or_eq, le_iff_lt_or_eq, strcmp_neg, strcmp_eq_zero]

/-- Sorting a list with distinct addresses makes it strictly ascending. -/
theorem sortDevs_sorted {list : List Dev} (hn : (list.map Dev.mac).Nodup) :
    SortedDiff.Sorted Dev.mac (sortDevs list) := by
  have htotal : Std.Total fun a b : Dev => strcmp a.mac b.mac ≤ 0 :=
    ⟨fun a b => by simpa only [strcmp_le] using le_total a.mac b.mac⟩
  have htrans : IsTrans Dev fun a b => strcmp a.mac b.mac ≤ 0 :=
    ⟨fun a b c => by simpa only [strcmp_le] using le_trans⟩
  have hsorted : (sortDevs list).Pairwise fun a b => strcmp a.mac b.mac ≤ 0 :=
    List.pairwise_insertionSort _ list
  have hnodup : ((sortDevs list).map Dev.mac).Nodup :=
    ((sortDevs_perm list).map Dev.mac).nodup_iff.mpr hn
  refine (hsorted.and (List.pairwise_map.mp hnodup)).imp fun {a b} hab => ?_
  exact lt_of_le_of_ne (strcmp_le.mp hab.1) hab.2

/-! ## Snapshots -/

/-- A list as `rebuild` leaves it. -/
structure Snapshot where
  list : List Dev
  sorted : SortedDiff.Sorted Dev.mac list
  canonical : ∀ d ∈ list, isCanonical d.mac = true
  small : list.length ≤ maxDevices

theorem rebuild_sorted (cfg : Config) (l : NpLeases) (w : World κ) :
    SortedDiff.Sorted Dev.mac (rebuild h cfg l w).1.list := by
  rw [rebuild_list_eq]
  refine sortDevs_sorted ?_
  rw [markBlocked_macs]
  exact merge_nodup _

theorem mem_rebuild {cfg : Config} {l : NpLeases} {w : World κ} {d : Dev}
    (hd : d ∈ (rebuild h cfg l w).1.list) :
    ∃ e ∈ merge (mergedRecords h cfg l.path w), e.unmarked = d.unmarked := by
  rw [rebuild_list_eq] at hd
  exact mem_markBlocked h ((sortDevs_perm _).mem_iff.mp hd)

theorem rebuild_macs_perm (cfg : Config) (l : NpLeases) (w : World κ) :
    ((rebuild h cfg l w).1.list.map Dev.mac).Perm
      ((merge (mergedRecords h cfg l.path w)).map Dev.mac) := by
  rw [rebuild_list_eq]
  refine ((sortDevs_perm _).map Dev.mac).trans ?_
  rw [markBlocked_macs]

theorem rebuild_canonical {cfg : Config} {l : NpLeases} {w : World κ} {d : Dev}
    (hd : d ∈ (rebuild h cfg l w).1.list) : isCanonical d.mac = true := by
  obtain ⟨e, he, hu⟩ := mem_rebuild h hd
  obtain ⟨r, hr, hre⟩ := List.mem_map.mp (merge_mac_mem (List.mem_map_of_mem (f := Dev.mac) he))
  have hmac : d.mac = r.mac := by
    rw [hre]
    exact (congrArg Dev.mac hu).symm
  rw [hmac]
  exact mergedRecords_canonical h hr

/-- Whatever the machine does, `rebuild` leaves a snapshot. -/
def rebuildSnapshot (cfg : Config) (l : NpLeases) (w : World κ) : Snapshot where
  list := (rebuild h cfg l w).1.list
  sorted := rebuild_sorted h cfg l w
  canonical := fun _ hd => rebuild_canonical h hd
  small := by
    have hlen := (rebuild_macs_perm h cfg l w).length_eq
    rw [List.length_map, List.length_map] at hlen
    rw [hlen]
    exact merge_length _

/-! ## The order of the reported addresses -/

/-- Marking an address takes its entry out of the unmarked ones. -/
theorem addBlockedCb_unblocked {list : List Dev} (hn : (list.map Dev.mac).Nodup) {t : Str}
    (ht : isCanonical t = true) :
    (addBlockedCb list t).filter (fun d => !d.blocked) =
      list.filter fun d => !d.blocked && decide (d.mac ≠ t) := by
  have hmac : (blockedDev t).mac = t := by rw [blockedDev_canonical ht]
  have hblocked : (blockedDev t).blocked = true := rfl
  have hrest : ∀ l : List Dev, t ∉ l.map Dev.mac →
      l.filter (fun d => !d.blocked) = l.filter fun d => !d.blocked && decide (d.mac ≠ t) := by
    intro l hl
    refine List.filter_congr fun d hd => ?_
    have : d.mac ≠ t := fun he => hl (he ▸ List.mem_map_of_mem hd)
    simp [this]
  have hinto : ∀ l l' : List Dev, (l.map Dev.mac).Nodup →
      Keyed.mergeInto Dev.mac mergeDev (blockedDev t) l = some l' →
      l'.filter (fun d => !d.blocked) = l.filter fun d => !d.blocked && decide (d.mac ≠ t) := by
    intro l
    induction l with
    | nil => intro l' _ hm; cases hm
    | cons e es ih =>
      intro l' hnd hm
      rw [List.map_cons, List.nodup_cons] at hnd
      rw [Keyed.mergeInto, hmac] at hm
      split at hm
      · next he =>
        cases hm
        have hmarked : (mergeDev e (blockedDev t)).blocked = true := by simp [mergeDev, hblocked]
        rw [List.filter_cons, List.filter_cons, hmarked, hrest es (he ▸ hnd.1)]
        simp [he]
      · next he =>
        obtain ⟨es', hes, rfl⟩ := Option.map_eq_some_iff.mp hm
        rw [List.filter_cons, List.filter_cons, ih es' hnd.2 hes]
        simp [he]
  rw [addBlockedCb, addOrMerge_eq, Keyed.upsert]
  cases hm : Keyed.mergeInto Dev.mac mergeDev (blockedDev t) list with
  | some list' => exact hinto list list' hn hm
  | none =>
    have hnot : t ∉ list.map Dev.mac := by
      have := Keyed.mergeInto_eq_none.mp hm
      rwa [hmac] at this
    dsimp only
    split
    · exact hrest list hnot
    · rw [List.filter_append, hrest list hnot]
      simp [hblocked]

theorem foldl_addBlockedCb_unblocked {list : List Dev} (hn : (list.map Dev.mac).Nodup)
    {reported : List Str} (hr : ∀ t ∈ reported, isCanonical t = true) :
    (reported.foldl addBlockedCb list).filter (fun d => !d.blocked) =
      list.filter fun d => !d.blocked && decide (d.mac ∉ reported) := by
  induction reported generalizing list with
  | nil => simp
  | cons t ts ih =>
    have hn' : ((addBlockedCb list t).map Dev.mac).Nodup := by
      rw [addBlockedCb, addOrMerge_eq]
      exact Keyed.nodup_upsert mergeDev_mac hn
    have hsplit : ∀ p : Dev → Bool, (addBlockedCb list t).filter (fun d => !d.blocked && p d) =
        ((addBlockedCb list t).filter fun d => !d.blocked).filter p := fun p => by
      rw [List.filter_filter]
      exact List.filter_congr fun d _ => Bool.and_comm _ _
    rw [List.foldl_cons, ih hn' fun x hx => hr x (List.mem_cons_of_mem _ hx), hsplit,
      addBlockedCb_unblocked hn (hr t List.mem_cons_self), List.filter_filter]
    refine List.filter_congr fun d _ => ?_
    by_cases ht : d.mac = t <;> by_cases hts : d.mac ∈ ts <;> simp [ht, hts]

/-- The merged table, the reported addresses in any order: the same entries, and the same
    unmarked ones in the same order. -/
theorem merge_reported_perm {records : List Dev} {reported reported' : List Str}
    (hr : ∀ t ∈ reported, isCanonical t = true) (hp : reported'.Perm reported)
    (hc : ((records ++ reported.map blockedDev).map Dev.mac).toFinset.card ≤ maxDevices) :
    (merge (records ++ reported'.map blockedDev)).Perm (merge (records ++ reported.map blockedDev)) ∧
      (merge (records ++ reported'.map blockedDev)).filter (fun d => !d.blocked) =
        (merge (records ++ reported.map blockedDev)).filter fun d => !d.blocked := by
  have hperm : (records ++ reported'.map blockedDev).Perm (records ++ reported.map blockedDev) :=
    (hp.map blockedDev).append_left records
  have hc' : ((records ++ reported'.map blockedDev).map Dev.mac).toFinset.card ≤ maxDevices := by
    rwa [List.toFinset_eq_of_perm _ _ (hperm.map Dev.mac)]
  have hr' : ∀ t ∈ reported', isCanonical t = true := fun t ht => hr t (hp.mem_iff.mp ht)
  constructor
  · -- the records for one key differ by a permutation of equal ones
    have hfind : ∀ k, Keyed.find? Dev.mac k (merge (records ++ reported'.map blockedDev)) =
        Keyed.find? Dev.mac k (merge (records ++ reported.map blockedDev)) := by
      intro k
      have hsame : ∀ ts : List Str, (∀ t ∈ ts, isCanonical t = true) →
          (ts.map blockedDev).filter (fun d => decide (d.mac = k)) =
            List.replicate ((ts.map blockedDev).filter fun d => decide (d.mac = k)).length
              (blockedDev k) := by
        intro ts hts
        refine List.eq_replicate_iff.mpr ⟨rfl, fun d hd => ?_⟩
        obtain ⟨hd, hk⟩ := List.mem_filter.mp hd
        obtain ⟨t, ht, rfl⟩ := List.mem_map.mp hd
        have hmac : (blockedDev t).mac = t := by rw [blockedDev_canonical (hts t ht)]
        rw [hmac, decide_eq_true_eq] at hk
        rw [hk]
      rw [find?_merge hc', find?_merge hc, List.filter_append, List.filter_append,
        hsame reported' hr', hsame reported hr,
        (((hp.map blockedDev).filter fun d => decide (d.mac = k)).length_eq)]
    have hnd := merge_nodup (records ++ reported.map blockedDev)
    have hnd' := merge_nodup (records ++ reported'.map blockedDev)
    refine (List.perm_ext_iff_of_nodup hnd'.of_map hnd.of_map).mpr fun d => ?_
    rw [Keyed.mem_iff_find? hnd', Keyed.mem_iff_find? hnd, hfind]
  · have hfold : ∀ ts : List Str, merge (records ++ ts.map blockedDev) =
        ts.foldl addBlockedCb (merge records) := fun ts => by
      rw [merge, List.foldl_append, List.foldl_map]
      rfl
    rw [hfold, hfold, foldl_addBlockedCb_unblocked (merge_nodup records) hr',
      foldl_addBlockedCb_unblocked (merge_nodup records) hr]
    exact List.filter_congr fun d _ => by simp only [hp.mem_iff]

/-- Two machines that differ only in the order in which a listing reports its addresses. -/
structure SameButOrder (h h' : Host κ) (cfg : Config) : Prop where
  fopen : h'.fopen = h.fopen
  time : h'.time = h.time
  system : h'.system = h.system
  listed : ∀ k, (h'.popen (listSetCmd cfg) k).2 = (h.popen (listSetCmd cfg) k).2
  reported : ∀ k, (reportedMacs h' cfg { host := k }).Perm (reportedMacs h cfg { host := k })

variable {h} {h' : Host κ} {cfg : Config}

theorem reportedMacs_host (w : World κ) :
    reportedMacs h cfg w = reportedMacs h cfg { host := w.host } := by
  unfold reportedMacs npNftList World.popen
  cases (h.popen (listSetCmd cfg) w.host).1 <;> rfl

theorem npNftList_host (w : World κ) :
    (npNftList h cfg w).2.host = (h.popen (listSetCmd cfg) w.host).2 := by
  unfold npNftList World.popen
  cases (h.popen (listSetCmd cfg) w.host).1 <;> rfl

theorem parseLeaseLine_same (hs : SameButOrder h h' cfg) (line : Str) {w w' : World κ}
    (hw : w'.host = w.host) :
    (parseLeaseLine h' line w').1 = (parseLeaseLine h line w).1 ∧
      (parseLeaseLine h' line w').2.host = (parseLeaseLine h line w).2.host := by
  unfold parseLeaseLine World.time
  rw [hs.time, hw]
  split
  · exact ⟨rfl, hw⟩
  · split
    · exact ⟨rfl, hw⟩
    · exact ⟨rfl, rfl⟩

theorem parsedLines_same (hs : SameButOrder h h' cfg) (lines : List Str) {w w' : World κ}
    (hw : w'.host = w.host) :
    (parsedLines h' lines w').1 = (parsedLines h lines w).1 ∧
      (parsedLines h' lines w').2.host = (parsedLines h lines w).2.host := by
  induction lines generalizing w w' with
  | nil => exact ⟨rfl, hw⟩
  | cons line lines ih =>
    have hline := parseLeaseLine_same hs (cstr line) hw
    have hrest := ih hline.2
    exact ⟨by simp only [parsedLines, hline.1, hrest.1], hrest.2⟩

theorem fileRecords_same (hs : SameButOrder h h' cfg) (path : Str) {w w' : World κ}
    (hw : w'.host = w.host) :
    (fileRecords h' path w').1 = (fileRecords h path w).1 ∧
      (fileRecords h' path w').2.host = (fileRecords h path w).2.host := by
  unfold fileRecords World.fopen
  rw [hs.fopen, hw]
  dsimp only
  split
  · exact parsedLines_same hs _ rfl
  · exact ⟨rfl, rfl⟩

theorem npNftIsBlocked_same (hs : SameButOrder h h' cfg) (t : Str) {w w' : World κ}
    (hw : w'.host = w.host) :
    (npNftIsBlocked h' cfg t w').1 = (npNftIsBlocked h cfg t w).1 ∧
      (npNftIsBlocked h' cfg t w').2.host = (npNftIsBlocked h cfg t w).2.host := by
  unfold npNftIsBlocked World.system
  rw [hs.system, hw]
  split
  · exact ⟨rfl, hw⟩
  · dsimp only
    split
    · exact ⟨rfl, rfl⟩
    · split <;> exact ⟨rfl, rfl⟩

theorem markBlocked_same (hs : SameButOrder h h' cfg) (ds : List Dev) {w w' : World κ}
    (hw : w'.host = w.host) :
    (markBlocked h' cfg ds w').1 = (markBlocked h cfg ds w).1 := by
  induction ds generalizing w w' with
  | nil => rfl
  | cons d ds ih =>
    rw [markBlocked, markBlocked]
    split
    · simp only [ih hw]
    · have hd := npNftIsBlocked_same hs d.mac hw
      simp only [hd.1, ih hd.2]

/-- `rebuild`'s list depends neither on the list before nor on the order of the report. -/
theorem rebuild_same (hs : SameButOrder h h' cfg) {l l' : NpLeases} (hl : l'.path = l.path)
    {w w' : World κ} (hw : w'.host = w.host)
    (hc : ((mergedRecords h cfg l.path w).map Dev.mac).toFinset.card ≤ maxDevices) :
    (rebuild h' cfg l' w').1.list = (rebuild h cfg l w).1.list := by
  have hfile := fileRecords_same hs l.path hw
  have hreported : (reportedMacs h' cfg (fileRecords h' l.path w').2).Perm
      (reportedMacs h cfg (fileRecords h l.path w).2) := by
    rw [reportedMacs_host, reportedMacs_host (h := h), hfile.2]
    exact hs.reported _
  have hlisted : (npNftList h' cfg (fileRecords h' l.path w').2).2.host =
      (npNftList h cfg (fileRecords h l.path w).2).2.host := by
    rw [npNftList_host, npNftList_host, hfile.2, hs.listed]
  obtain ⟨hperm, hunmarked⟩ := merge_reported_perm
    (fun t ht => reportedMacs_canonical h ht) hreported hc
  have hmarked := markBlocked_perm h' cfg (merge (mergedRecords h' cfg l'.path w'))
    (npNftList h' cfg (fileRecords h' l'.path w').2).2
  rw [hl, mergedRecords, hfile.1, hunmarked] at hmarked
  refine (rebuild_sorted h' cfg l' w').eq_of_perm (rebuild_sorted h cfg l w) ?_
  rw [rebuild_list_eq, rebuild_list_eq, hl]
  refine (sortDevs_perm _).trans (List.Perm.trans ?_ (sortDevs_perm _).symm)
  rw [mergedRecords, hfile.1]
  exact hmarked.trans (((hperm.filter _).append
    (List.Perm.of_eq (markBlocked_same hs _ hlisted))).trans (markBlocked_perm h cfg _ _).symm)

end Host

/-! ## The union -/

/-- `list` is the union of the records and the reported addresses, by address, each field
    decided by the last record that has a value there. -/
structure IsUnion (records : List Dev) (reported : List Str) (list : List Dev) : Prop where
  mem_iff : ∀ t, t ∈ list.map Dev.mac ↔ t ∈ records.map Dev.mac ∨ t ∈ reported
  once : ∀ t ∈ list.map Dev.mac, (list.map Dev.mac).count t = 1
  ascending : list.Pairwise fun a b => strcmp a.mac b.mac < 0
  canonical : ∀ d ∈ list, isCanonical d.mac = true
  ip : ∀ d ∈ list, d.ip = lastOf Dev.ip [] d.mac records
  hostname : ∀ d ∈ list, d.hostname = lastOf Dev.hostname [] d.mac records
  leaseExpires : ∀ d ∈ list, d.leaseExpires = lastOf Dev.leaseExpires 0 d.mac records

/-- A reported address brings no field but the mark. -/
theorem lastOf_reported {β : Type} [DecidableEq β] {sel : Dev → β} {zero : β}
    (hzero : ∀ t, sel (blockedDev t) = zero) (mac : Str) (records : List Dev)
    (reported : List Str) :
    lastOf sel zero mac (records ++ reported.map blockedDev) = lastOf sel zero mac records := by
  rw [lastOf, Register.final_append]
  refine Register.final_of_untouched (fun d hd => ?_) _
  obtain ⟨t, _, rfl⟩ := List.mem_map.mp hd
  rw [hzero]
  simp

section Union

variable {κ : Type} (h : Host κ)

theorem rebuild_field {β : Type} [DecidableEq β] {sel : Dev → β} {zero : β} (hp : Prefers sel zero)
    (hzero : ∀ t, sel (blockedDev t) = zero) (hmark : ∀ d, sel d.unmarked = sel d) {cfg : Config}
    {l : NpLeases} {w : World κ} {d : Dev} (hd : d ∈ (rebuild h cfg l w).1.list) :
    sel d = lastOf sel zero d.mac (fileRecords h l.path w).1 := by
  obtain ⟨e, he, hu⟩ := mem_rebuild h hd
  have hmac : e.mac = d.mac :=
    show e.unmarked.mac = d.unmarked.mac from congrArg Dev.mac hu
  calc sel d = sel e := by rw [← hmark d, ← hu, hmark e]
    _ = lastOf sel zero e.mac (mergedRecords h cfg l.path w) := merge_field hp he
    _ = lastOf sel zero d.mac (fileRecords h l.path w).1 := by
      rw [mergedRecords, lastOf_reported hzero, hmac]

/-- With at most 256 addresses in all, `rebuild` leaves the union of the file's records and
    the reported addresses, whatever the list before and the order of the report. -/
theorem rebuild_isUnion (cfg : Config) (l : NpLeases) (w : World κ)
    (hc : ((fileRecords h l.path w).1.map Dev.mac ++
      reportedMacs h cfg (fileRecords h l.path w).2).toFinset.card ≤ maxDevices) :
    IsUnion (fileRecords h l.path w).1 (reportedMacs h cfg (fileRecords h l.path w).2)
        (rebuild h cfg l w).1.list ∧
      ∀ (h' : Host κ) (l' : NpLeases) (w' : World κ), SameButOrder h h' cfg → l'.path = l.path →
        w'.host = w.host → (rebuild h' cfg l' w').1.list = (rebuild h cfg l w).1.list := by
  rw [← mergedRecords_macs] at hc
  have hsorted := rebuild_sorted h cfg l w
  refine ⟨⟨fun t => ?_, fun t ht => ?_, ?_, fun d hd => rebuild_canonical h hd, fun d hd => ?_,
    fun d hd => ?_, fun d hd => ?_⟩, fun h' l' w' hs hl hw => rebuild_same hs hl hw hc⟩
  · rw [(rebuild_macs_perm h cfg l w).mem_iff, merge_mac_iff hc, mergedRecords_macs,
      List.mem_append]
  · exact List.count_eq_one_of_mem hsorted.nodup ht
  · exact hsorted.imp fun hab => strcmp_neg.mpr hab
  · exact rebuild_field h prefers_ip (fun _ => rfl) (fun _ => rfl) hd
  · exact rebuild_field h prefers_hostname (fun _ => rfl) (fun _ => rfl) hd
  · exact rebuild_field h prefers_leaseExpires (fun _ => rfl) (fun _ => rfl) hd

end Union

/-- Two leases of one address, and another address in the blocked set. -/
def twoLeases : Str :=
  "7 02:00:00:00:00:0A 10.0.0.9 * *\n8 02:00:00:00:00:0a 10.0.0.2 tv *\n".toList

def twoLeasesHost : Host Unit := listingHost ([oneMac].map Mac.text) (some twoLeases)

theorem rebuild_isUnion_twoLeases :
    IsUnion (fileRecords twoLeasesHost "f".toList { host := () }).1
      (reportedMacs twoLeasesHost defaultConfig (fileRecords twoLeasesHost "f".toList { host := () }).2)
      (rebuild twoLeasesHost defaultConfig (npLeasesCreate (some "f".toList)) { host := () }).1.list :=
  (rebuild_isUnion twoLeasesHost defaultConfig (npLeasesCreate (some "f".toList)) { host := () }
    (by decide +kernel)).1

end Netparent
