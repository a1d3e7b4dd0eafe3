/-
  A snapshot is a function of the lease file and the blocked set.

  `shown` gives the entry under each address from the records of the file and the set, the time it
  was last seen apart. With room for all addresses and a complete listing, `rebuild` computes it
  (`rebuild_shown`), so what a change of the set does to a snapshot is read off `shown`: the
  entry of that address, and no other (`shown_toggled`, `shown_toggled_of_ne`).
-/
import Netparent.Marking

namespace Netparent

/-! ## The records of a file -/

/-- The records of a lease file, without the times they were read; none without a file. -/
def leaseRecords : Option Str → List Dev
  | none => []
  | some content => (fgetsLines 512 content).filterMap fun line =>
      (sscanfLease (cstr line)).bind fun f => leaseRecord f 0

section Host

variable {κ : Type} {h : Host κ}

theorem leaseRecord_unseen (f : LeaseFields) (now : Int) :
    (leaseRecord f now).map Dev.unseen = leaseRecord f 0 := by
  rw [leaseRecord, Option.map_map]
  rfl

theorem parseLeaseLine_unseen (line : Str) (w : World κ) :
    (parseLeaseLine h line w).1.map Dev.unseen =
      (sscanfLease line).bind fun f => leaseRecord f 0 := by
  unfold parseLeaseLine
  cases sscanfLease line with
  | none => rfl
  | some f =>
    rw [Option.bind_some]
    dsimp only
    cases hn : npMacNormalize f.mac with
    | none =>
      have hnone : leaseRecord f 0 = none := by rw [leaseRecord, hn]; rfl
      exact hnone.symm
    | some norm => exact leaseRecord_unseen f _

theorem parsedLines_unseen (lines : List Str) (w : World κ) :
    (parsedLines h lines w).1.map Dev.unseen = lines.filterMap fun line =>
      (sscanfLease (cstr line)).bind fun f => leaseRecord f 0 := by
  induction lines generalizing w with
  | nil => rfl
  | cons line lines ih =>
    rw [parsedLines, List.map_append, ih, List.filterMap_cons,
      ← parseLeaseLine_unseen (cstr line) w]
    cases (parseLeaseLine h (cstr line) w).1 <;> rfl

theorem fileRecords_unseen (path : Str) (w : World κ) :
    (fileRecords h path w).1.map Dev.unseen = leaseRecords (h.fopen path w.host) := by
  unfold fileRecords World.fopen
  dsimp only
  cases h.fopen path w.host with
  | none => rfl
  | some content => exact parsedLines_unseen _ _

theorem fileRecords_macs (path : Str) (w : World κ) : (fileRecords h path w).1.map Dev.mac =
    (leaseRecords (h.fopen path w.host)).map Dev.mac := by
  rw [← fileRecords_unseen, List.map_map]
  rfl

theorem lastOf_unseen {β : Type} [DecidableEq β] {sel : Dev → β} {zero : β}
    (hsel : ∀ d, sel d.unseen = sel d) (mac : Str) (records : List Dev) :
    lastOf sel zero mac (records.map Dev.unseen) = lastOf sel zero mac records := by
  have htouch : (fun r : Dev => if r.mac = mac ∧ sel r ≠ zero then some (sel r) else none) ∘ Dev.unseen =
      fun r => if r.mac = mac ∧ sel r ≠ zero then some (sel r) else none := by
    funext r
    rw [Function.comp_apply, hsel]
    rfl
  rw [lastOf, lastOf, Register.final, Register.final, List.filterMap_map, htouch]

/-! ## What is shown -/

/-- The entry under an address. -/
def shown (records : List Dev) (S : Finset Mac) (k : Str) : Option Dev :=
  if k ∈ records.map Dev.mac ∨ ∃ m ∈ S, m.text = k then some
    { mac := k
      ip := lastOf Dev.ip [] k records
      hostname := lastOf Dev.hostname [] k records
      blocked := decide (∃ m ∈ S, m.text = k)
      leaseExpires := lastOf Dev.leaseExpires 0 k records }
  else none

/-- Room in the table for all addresses of the file and the set. -/
def HasRoom (records : List Dev) (S : Finset Mac) : Prop :=
  ((records.map Dev.mac).toFinset ∪ S.image Mac.text).card ≤ maxDevices

/-- Whenever the set is `S`, `np_nft_list` reports its addresses and no other. -/
def CompleteListing (h : Host κ) (cfg : Config) (set : κ → Finset Mac) (S : Finset Mac) : Prop :=
  ∀ k, set k = S → ∀ t, t ∈ reportedMacs h cfg { host := k } ↔ ∃ m ∈ S, m.text = t

variable {cfg : Config} {set : κ → Finset Mac}

/-- `rebuild` computes `shown`. -/
theorem rebuild_shown (hlook : LooksUp h cfg set) {l : NpLeases} {w : World κ}
    (hlisted : CompleteListing h cfg set (set w.host))
    (hroom : HasRoom (leaseRecords (h.fopen l.path w.host)) (set w.host)) (k : Str) :
    (Keyed.find? Dev.mac k (rebuild h cfg l w).1.list).map Dev.unseen =
      shown (leaseRecords (h.fopen l.path w.host)) (set w.host) k := by
  have hreport : ∀ t, t ∈ reportedMacs h cfg (fileRecords h l.path w).2 ↔
      ∃ m ∈ set w.host, m.text = t := fun t => by
    rw [reportedMacs_host]
    exact hlisted _ (hlook.asking.fileRecords l.path w) t
  have hc : ((mergedRecords h cfg l.path w).map Dev.mac).toFinset.card ≤ maxDevices := by
    have hunion : ((mergedRecords h cfg l.path w).map Dev.mac).toFinset =
        ((leaseRecords (h.fopen l.path w.host)).map Dev.mac).toFinset ∪
          (set w.host).image Mac.text := by
      ext t
      rw [mergedRecords_macs, fileRecords_macs, List.mem_toFinset, List.mem_append, hreport,
        Finset.mem_union, List.mem_toFinset, Finset.mem_image]
    rw [hunion]
    exact hroom
  have hmem : ∀ t, t ∈ (rebuild h cfg l w).1.list.map Dev.mac ↔
      t ∈ (leaseRecords (h.fopen l.path w.host)).map Dev.mac ∨ ∃ m ∈ set w.host, m.text = t := by
    intro t
    rw [(rebuild_macs_perm h cfg l w).mem_iff, merge_mac_iff hc, mergedRecords_macs,
      List.mem_append, fileRecords_macs, hreport]
  cases hf : Keyed.find? Dev.mac k (rebuild h cfg l w).1.list with
  | none =>
    have hno := Keyed.find?_eq_none.mp hf
    rw [hmem] at hno
    exact (if_neg hno).symm
  | some d =>
    obtain rfl := Keyed.key_of_find? hf
    have hd := Keyed.mem_of_find? hf
    have hmark := rebuild_exactlyMarked hlook (fun t ht => (hreport t).mp ht) d hd
    have hfield : ∀ {β : Type} [DecidableEq β] {sel : Dev → β} {zero : β}, Prefers sel zero →
        (∀ t, sel (blockedDev t) = zero) → (∀ d, sel d.unmarked = sel d) →
        (∀ d, sel d.unseen = sel d) →
        sel d = lastOf sel zero d.mac (leaseRecords (h.fopen l.path w.host)) := by
      intro β _ sel zero hp hzero hunmarked hunseen
      rw [rebuild_field h hp hzero hunmarked hd, ← fileRecords_unseen, lastOf_unseen hunseen]
    rw [shown, if_pos ((hmem _).mp (List.mem_map_of_mem hd)),
      ← hfield prefers_ip (fun _ => rfl) (fun _ => rfl) fun _ => rfl,
      ← hfield prefers_hostname (fun _ => rfl) (fun _ => rfl) fun _ => rfl,
      ← hfield prefers_leaseExpires (fun _ => rfl) (fun _ => rfl) fun _ => rfl]
    simp only [← hmark, Bool.decide_eq_true, Option.map_some]
    rfl

theorem rebuild_entry (hlook : LooksUp h cfg set) {l : NpLeases} {w : World κ}
    (hlisted : CompleteListing h cfg set (set w.host))
    (hroom : HasRoom (leaseRecords (h.fopen l.path w.host)) (set w.host)) {d : Dev}
    (hd : d ∈ (rebuild h cfg l w).1.list) :
    shown (leaseRecords (h.fopen l.path w.host)) (set w.host) d.mac = some d.unseen := by
  rw [← rebuild_shown hlook hlisted hroom, Keyed.find?_of_mem (rebuild_sorted h cfg l w).nodup hd]
  rfl

end Host

/-! ## Changes of the set -/

/-- The set after a block or an unblock. -/
def toggled (S : Finset Mac) (m : Mac) (block : Bool) : Finset Mac :=
  if block then insert m S else S.erase m

theorem mem_toggled {S : Finset Mac} {m x : Mac} {block : Bool} :
    x ∈ toggled S m block ↔ if x = m then block = true else x ∈ S := by
  unfold toggled
  by_cases hx : x = m
  · subst hx
    cases block <;> simp
  · cases block <;> simp [hx]

/-- Only the entry of the address changes. -/
theorem shown_toggled_of_ne {records : List Dev} {S : Finset Mac} {m : Mac} {k : Str}
    (hk : k ≠ m.text) (block : Bool) : shown records (toggled S m block) k = shown records S k := by
  have hiff : (∃ x ∈ toggled S m block, x.text = k) ↔ ∃ x ∈ S, x.text = k := by
    refine exists_congr fun x => and_congr_left fun hx => ?_
    rw [mem_toggled, if_neg fun he => hk (by rw [← hx, he])]
  simp only [shown, hiff]

/-- The entry of the address is marked as asked, and stays unless it has neither mark nor lease. -/
theorem shown_toggled {records : List Dev} {S : Finset Mac} {m : Mac} {e : Dev}
    (he : shown records S m.text = some e) (block : Bool) :
    shown records (toggled S m block) m.text =
      if block = true ∨ m.text ∈ records.map Dev.mac then some { e with blocked := block } else none := by
  have hiff : (∃ x ∈ toggled S m block, x.text = m.text) ↔ block = true := by
    rw [m.text_mem_iff, mem_toggled, if_pos rfl]
  rw [shown, Option.ite_none_right_eq_some, Option.some.injEq] at he
  obtain ⟨_, rfl⟩ := he
  simp only [shown, hiff, Bool.decide_eq_true, or_comm]

theorem toggled_room {records : List Dev} {S : Finset Mac} {m : Mac} {block : Bool}
    (hroom : HasRoom records S) (hm : shown records S m.text ≠ none) :
    HasRoom records (toggled S m block) := by
  have hin : m.text ∈ records.map Dev.mac ∨ ∃ x ∈ S, x.text = m.text := by
    by_contra hno
    exact hm (if_neg hno)
  refine (Finset.card_le_card fun t ht => ?_).trans hroom
  simp only [Finset.mem_union, List.mem_toFinset, Finset.mem_image] at ht ⊢
  rcases ht with ht | ⟨x, hx, rfl⟩
  · exact Or.inl ht
  · by_cases hxm : x = m
    · rw [hxm]
      exact hin
    · rw [mem_toggled, if_neg hxm] at hx
      exact Or.inr ⟨x, hx, rfl⟩

end Netparent
