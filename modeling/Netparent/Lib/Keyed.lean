/-
  Bounded tables kept as lists with at most one entry for each key: `upsert` merges a record into the
  entry with its key, appends it when there is none, and drops it when the table is full.

  `find?_foldl` says what a run of insertions leaves under a key: the records with that key,
  merged in order. It asks that the table never overflows; `room_of_card` gives that from a
  bound on the number of distinct keys. `find?_foldl_of_mem` asks instead that the key is in
  the table at the end.
-/
import Mathlib

namespace Keyed

variable {α κ : Type*} [DecidableEq κ] (key : α → κ) (merge : α → α → α)

/-- The entry with key `k`. -/
def find? (k : κ) (l : List α) : Option α := l.find? fun a => decide (key a = k)

/-- Merge `d` into the first entry with its key; `none` when there is no such entry. -/
def mergeInto (d : α) : List α → Option (List α)
  | [] => none
  | e :: es => if key e = key d then some (merge e d :: es) else (mergeInto d es).map (e :: ·)

/-- One insertion into a table of at most `cap` entries. -/
def upsert (cap : Nat) (l : List α) (d : α) : List α :=
  match mergeInto key merge d l with
  | some l' => l'
  | none => if cap ≤ l.length then l else l ++ [d]

/-- What one record does to the entry under its key. -/
def absorb (o : Option α) (d : α) : Option α :=
  some (match o with | some e => merge e d | none => d)

/-- The first `cap` different keys of the records. -/
def firstKeys (cap : Nat) (ds : List α) : List κ := (ds.map key).eraseDups.take cap

variable {key merge}

theorem mem_keys {k : κ} {l : List α} : k ∈ l.map key ↔ (find? key k l).isSome := by
  simp [find?]

theorem find?_eq_none {k : κ} {l : List α} : find? key k l = none ↔ k ∉ l.map key := by
  rw [mem_keys]
  cases find? key k l <;> simp

@[simp] theorem find?_nil (k : κ) : find? key k [] = none := rfl

theorem find?_cons (k : κ) (a : α) (l : List α) :
    find? key k (a :: l) = if key a = k then some a else find? key k l := by
  unfold find?
  rw [List.find?_cons]
  by_cases h : key a = k <;> simp [h]

theorem find?_append (k : κ) (l l' : List α) :
    find? key k (l ++ l') = (find? key k l).or (find? key k l') := by
  simp [find?, List.find?_append]

theorem key_of_find? {k : κ} {l : List α} {a : α} (h : find? key k l = some a) : key a = k := by
  simpa using List.find?_some h

theorem mem_of_find? {k : κ} {l : List α} {a : α} (h : find? key k l = some a) : a ∈ l :=
  List.mem_of_find?_eq_some h

/-- In a table with distinct keys an entry is found under its key. -/
theorem find?_of_mem {l : List α} (hn : (l.map key).Nodup) {a : α} (h : a ∈ l) :
    find? key (key a) l = some a := by
  induction l with
  | nil => cases h
  | cons b l ih =>
    rw [List.map_cons, List.nodup_cons] at hn
    rw [find?_cons]
    rcases List.mem_cons.mp h with rfl | h
    · rw [if_pos rfl]
    · have hne : key b ≠ key a := fun he => hn.1 (he ▸ List.mem_map.mpr ⟨a, h, rfl⟩)
      rw [if_neg hne]
      exact ih hn.2 h

theorem mem_iff_find? {l : List α} (hn : (l.map key).Nodup) {a : α} :
    a ∈ l ↔ find? key (key a) l = some a :=
  ⟨find?_of_mem hn, mem_of_find?⟩

theorem mergeInto_eq_none {d : α} {l : List α} :
    mergeInto key merge d l = none ↔ key d ∉ l.map key := by
  induction l with
  | nil => simp [mergeInto]
  | cons e es ih =>
    by_cases h : key e = key d
    · simp [mergeInto, h]
    · simp [mergeInto, h, ih, Ne.symm h]

section Merge

variable (hmerge : ∀ a b, key (merge a b) = key a)
include hmerge

theorem mergeInto_keys {d : α} {l l' : List α} (h : mergeInto key merge d l = some l') :
    l'.map key = l.map key := by
  induction l generalizing l' with
  | nil => simp [mergeInto] at h
  | cons e es ih =>
    unfold mergeInto at h
    split at h
    · cases h; simp [hmerge]
    · obtain ⟨t, ht, rfl⟩ := Option.map_eq_some_iff.mp h
      simp [ih ht]

theorem find?_mergeInto {d : α} {l l' : List α} (h : mergeInto key merge d l = some l') (k : κ) :
    find? key k l' = if key d = k then absorb merge (find? key k l) d else find? key k l := by
  induction l generalizing l' with
  | nil => simp [mergeInto] at h
  | cons e es ih =>
    unfold mergeInto at h
    split at h
    · next he =>
      cases h
      rw [find?_cons, find?_cons, hmerge, he]
      by_cases hk : key d = k <;> simp [hk, absorb]
    · next he =>
      obtain ⟨t, ht, rfl⟩ := Option.map_eq_some_iff.mp h
      rw [find?_cons, find?_cons, ih ht]
      by_cases hk : key d = k
      · subst hk; simp [he]
      · simp [hk]

/-- A table with room for one more entry, or an entry for the key, loses nothing. -/
theorem find?_upsert {cap : Nat} {l : List α} {d : α}
    (hroom : key d ∈ l.map key ∨ l.length < cap) (k : κ) :
    find? key k (upsert key merge cap l d) =
      if key d = k then absorb merge (find? key k l) d else find? key k l := by
  unfold upsert
  cases hm : mergeInto key merge d l with
  | some l' => exact find?_mergeInto hmerge hm k
  | none =>
    have hnot := mergeInto_eq_none.mp hm
    have hlt : ¬ cap ≤ l.length := by
      rcases hroom with h | h
      · exact absurd h hnot
      · omega
    simp only [if_neg hlt]
    rw [find?_append, find?_cons]
    by_cases hk : key d = k
    · subst hk
      simp [find?_eq_none.mpr hnot, absorb]
    · simp [hk, find?]

theorem nodup_upsert {cap : Nat} {l : List α} {d : α} (hn : (l.map key).Nodup) :
    ((upsert key merge cap l d).map key).Nodup := by
  unfold upsert
  cases hm : mergeInto key merge d l with
  | some l' => simpa [mergeInto_keys hmerge hm] using hn
  | none =>
    have hnot := mergeInto_eq_none.mp hm
    dsimp only
    split
    · exact hn
    · rw [List.map_append, List.nodup_append]
      exact ⟨hn, by simp, fun a ha b hb he => hnot (by simp at hb; subst hb; exact he ▸ ha)⟩

theorem length_upsert_le {cap : Nat} {l : List α} {d : α} (h : l.length ≤ cap) :
    (upsert key merge cap l d).length ≤ cap := by
  unfold upsert
  cases hm : mergeInto key merge d l with
  | some l' =>
    have := congrArg List.length (mergeInto_keys hmerge hm)
    simp only [List.length_map] at this
    simpa [this] using h
  | none =>
    dsimp only
    split
    · exact h
    · rw [List.length_append]; simp; omega

/-- Keys are only ever added, and only the keys of the records inserted. -/
theorem keys_upsert_subset {cap : Nat} {l : List α} {d : α} {k : κ}
    (h : k ∈ (upsert key merge cap l d).map key) : k ∈ l.map key ∨ k = key d := by
  unfold upsert at h
  cases hm : mergeInto key merge d l with
  | some l' =>
    rw [hm] at h
    exact Or.inl (mergeInto_keys hmerge hm ▸ h)
  | none =>
    rw [hm] at h
    dsimp only at h
    split at h
    · exact Or.inl h
    · rw [List.map_append, List.mem_append] at h
      rcases h with h | h
      · exact Or.inl h
      · exact Or.inr (by simpa using h)

/-! ## Runs of insertions -/

theorem nodup_foldl {cap : Nat} {l ds : List α} (hn : (l.map key).Nodup) :
    ((ds.foldl (upsert key merge cap) l).map key).Nodup := by
  induction ds generalizing l with
  | nil => exact hn
  | cons d ds ih => exact ih (nodup_upsert hmerge hn)

theorem length_foldl_le {cap : Nat} {l ds : List α} (h : l.length ≤ cap) :
    (ds.foldl (upsert key merge cap) l).length ≤ cap := by
  induction ds generalizing l with
  | nil => exact h
  | cons d ds ih => exact ih (length_upsert_le hmerge h)

theorem keys_foldl_subset {cap : Nat} {l ds : List α} {k : κ}
    (h : k ∈ (ds.foldl (upsert key merge cap) l).map key) : k ∈ l.map key ∨ k ∈ ds.map key := by
  induction ds generalizing l with
  | nil => exact Or.inl h
  | cons d ds ih =>
    rcases ih h with h | h
    · rcases keys_upsert_subset hmerge h with h | h
      · exact Or.inl h
      · exact Or.inr (by simp [h])
    · exact Or.inr (by simp only [List.map_cons, List.mem_cons]; exact Or.inr h)

omit hmerge in
/-- With at most `cap` distinct keys in all, the next record has room. -/
theorem room_of_card {cap : Nat} {l : List α} {d : α} {ks : Finset κ} (hn : (l.map key).Nodup)
    (hl : ∀ k ∈ l.map key, k ∈ ks) (hd : key d ∈ ks) (hc : ks.card ≤ cap) :
    key d ∈ l.map key ∨ l.length < cap := by
  by_cases hm : key d ∈ l.map key
  · exact Or.inl hm
  · refine Or.inr ?_
    have hsub : insert (key d) (l.map key).toFinset ⊆ ks := by
      intro k hk
      rcases Finset.mem_insert.mp hk with rfl | hk
      · exact hd
      · exact hl k (List.mem_toFinset.mp hk)
    have hcard := Finset.card_le_card hsub
    rw [Finset.card_insert_of_notMem (by simpa using hm), List.toFinset_card_of_nodup hn,
      List.length_map] at hcard
    omega

/-- **The run rule.** With at most `cap` distinct keys in all, a run of insertions leaves
    under each key the records with that key, merged in order. -/
theorem find?_foldl {cap : Nat} {ks : Finset κ} (hc : ks.card ≤ cap) {l ds : List α}
    (hn : (l.map key).Nodup) (hl : ∀ k ∈ l.map key, k ∈ ks) (hds : ∀ d ∈ ds, key d ∈ ks) (k : κ) :
    find? key k (ds.foldl (upsert key merge cap) l) =
      (ds.filter fun d => decide (key d = k)).foldl (absorb merge) (find? key k l) := by
  induction ds generalizing l with
  | nil => rfl
  | cons d ds ih =>
    have hroom := room_of_card hn hl (hds d (by simp)) hc
    have hl' : ∀ k ∈ (upsert key merge cap l d).map key, k ∈ ks := by
      intro k hk
      rcases keys_upsert_subset hmerge hk with h | rfl
      · exact hl k h
      · exact hds d (by simp)
    rw [List.foldl_cons, ih (nodup_upsert hmerge hn) hl' fun e he => hds e (by simp [he]),
      find?_upsert hmerge hroom, List.filter_cons]
    by_cases hk : key d = k <;> simp [hk]

omit hmerge [DecidableEq κ] in
theorem foldl_absorb_isSome {o : Option α} {ds : List α} :
    (ds.foldl (absorb merge) o).isSome ↔ o.isSome ∨ ds ≠ [] := by
  induction ds generalizing o with
  | nil => simp
  | cons d ds ih => simp [ih, absorb]

theorem keys_foldl {cap : Nat} {ks : Finset κ} (hc : ks.card ≤ cap) {l ds : List α}
    (hn : (l.map key).Nodup) (hl : ∀ k ∈ l.map key, k ∈ ks) (hds : ∀ d ∈ ds, key d ∈ ks) {k : κ} :
    k ∈ (ds.foldl (upsert key merge cap) l).map key ↔ k ∈ l.map key ∨ k ∈ ds.map key := by
  rw [mem_keys, find?_foldl hmerge hc hn hl hds, foldl_absorb_isSome, ← mem_keys]
  simp [List.filter_eq_nil_iff]

/-! ## What every entry has, and which keys a full table keeps -/

omit hmerge in
/-- What merging preserves for records with one key, every entry has that every record has. -/
theorem forall_mergeInto {P : α → Prop} (hP : ∀ a b, key a = key b → P a → P b → P (merge a b))
    {d : α} (hd : P d) {l l' : List α} (h : mergeInto key merge d l = some l')
    (hl : ∀ a ∈ l, P a) : ∀ a ∈ l', P a := by
  induction l generalizing l' with
  | nil => simp [mergeInto] at h
  | cons e es ih =>
    have he := hl e List.mem_cons_self
    have hes : ∀ a ∈ es, P a := fun a ha => hl a (List.mem_cons_of_mem _ ha)
    unfold mergeInto at h
    split at h
    · next hk =>
      cases h
      exact List.forall_mem_cons.mpr ⟨hP e d hk he hd, hes⟩
    · obtain ⟨t, ht, rfl⟩ := Option.map_eq_some_iff.mp h
      exact List.forall_mem_cons.mpr ⟨he, ih ht hes⟩

omit hmerge in
theorem forall_upsert {P : α → Prop} (hP : ∀ a b, key a = key b → P a → P b → P (merge a b))
    {cap : Nat} {d : α} (hd : P d) {l : List α} (hl : ∀ a ∈ l, P a) :
    ∀ a ∈ upsert key merge cap l d, P a := by
  unfold upsert
  cases hm : mergeInto key merge d l with
  | some l' => exact forall_mergeInto hP hd hm hl
  | none =>
    dsimp only
    split
    · exact hl
    · exact List.forall_mem_append.mpr ⟨hl, List.forall_mem_singleton.mpr hd⟩

omit hmerge in
theorem forall_foldl {P : α → Prop} (hP : ∀ a b, key a = key b → P a → P b → P (merge a b))
    {cap : Nat} {l ds : List α} (hl : ∀ a ∈ l, P a) (hds : ∀ d ∈ ds, P d) :
    ∀ a ∈ ds.foldl (upsert key merge cap) l, P a := by
  induction ds generalizing l with
  | nil => exact hl
  | cons d ds ih =>
    exact ih (forall_upsert hP (hds d List.mem_cons_self) hl)
      fun e he => hds e (List.mem_cons_of_mem _ he)

theorem keys_upsert {cap : Nat} {l : List α} {d : α} : (upsert key merge cap l d).map key =
    if key d ∈ l.map key ∨ cap ≤ l.length then l.map key else l.map key ++ [key d] := by
  unfold upsert
  cases hm : mergeInto key merge d l with
  | some l' =>
    have hmem : key d ∈ l.map key := by
      by_contra hn
      rw [mergeInto_eq_none.mpr hn] at hm
      cases hm
    rw [if_pos (Or.inl hmem)]
    exact mergeInto_keys hmerge hm
  | none =>
    have hnot := mergeInto_eq_none.mp hm
    dsimp only
    by_cases hlen : cap ≤ l.length
    · rw [if_pos hlen, if_pos (Or.inr hlen)]
    · rw [if_neg hlen, if_neg (not_or.mpr ⟨hnot, hlen⟩), List.map_append]
      rfl

/-- A key stays. -/
theorem keys_foldl_mono {cap : Nat} {l ds : List α} {k : κ} (h : k ∈ l.map key) :
    k ∈ (ds.foldl (upsert key merge cap) l).map key := by
  induction ds generalizing l with
  | nil => exact h
  | cons d ds ih =>
    refine ih ?_
    rw [keys_upsert hmerge]
    split
    · exact h
    · exact List.mem_append_left _ h

/-- A full table keeps its keys. -/
theorem keys_foldl_of_full {cap : Nat} {l ds : List α} (h : cap ≤ l.length) :
    (ds.foldl (upsert key merge cap) l).map key = l.map key := by
  induction ds generalizing l with
  | nil => rfl
  | cons d ds ih =>
    have hkeys : (upsert key merge cap l d).map key = l.map key := by
      rw [keys_upsert hmerge, if_pos (Or.inr h)]
    have hlen := congrArg List.length hkeys
    rw [List.length_map, List.length_map] at hlen
    rw [List.foldl_cons, ih (h.trans_eq hlen.symm), hkeys]

/-- Under a key that is kept: the records with that key, merged in order, however many keys
    there are. A record is dropped only when the table is full, and then its key never gets in. -/
theorem find?_foldl_of_mem {cap : Nat} {l ds : List α} {k : κ}
    (hk : k ∈ (ds.foldl (upsert key merge cap) l).map key) :
    find? key k (ds.foldl (upsert key merge cap) l) =
      (ds.filter fun d => decide (key d = k)).foldl (absorb merge) (find? key k l) := by
  induction ds generalizing l with
  | nil => rfl
  | cons d ds ih =>
    have hstep : find? key k (upsert key merge cap l d) =
        if key d = k then absorb merge (find? key k l) d else find? key k l := by
      by_cases hroom : key d ∈ l.map key ∨ l.length < cap
      · exact find?_upsert hmerge hroom k
      · obtain ⟨hnew, hfull⟩ := not_or.mp hroom
        have hsame : upsert key merge cap l d = l := by
          rw [upsert, mergeInto_eq_none.mpr hnew]
          exact if_pos (not_lt.mp hfull)
        have hne : key d ≠ k := by
          rintro rfl
          rw [List.foldl_cons, hsame, keys_foldl_of_full hmerge (not_lt.mp hfull)] at hk
          exact hnew hk
        rw [hsame, if_neg hne]
    rw [List.foldl_cons, ih hk, hstep, List.filter_cons]
    by_cases he : key d = k <;> simp [he]

/-- From the empty table, the keys kept are the first `cap` different ones. -/
theorem keys_foldl_nil {cap : Nat} (ds : List α) :
    (ds.foldl (upsert key merge cap) []).map key = firstKeys key cap ds := by
  unfold firstKeys
  induction ds using List.reverseRecOn with
  | nil => simp
  | append_singleton ds d ih =>
    have hlen : (ds.foldl (upsert key merge cap) []).length =
        min cap (ds.map key).eraseDups.length := by
      rw [← List.length_map (f := key), ih, List.length_take]
    rw [List.foldl_append, List.foldl_cons, List.foldl_nil, keys_upsert hmerge, ih, hlen,
      List.map_append, List.eraseDups_append]
    by_cases hmem : key d ∈ ds.map key
    · have hnil : ([d].map key).removeAll (ds.map key) = [] := by
        simpa [List.removeAll] using hmem
      rw [hnil, List.eraseDups_nil, List.append_nil]
      by_cases htake : key d ∈ (ds.map key).eraseDups.take cap
      · rw [if_pos (Or.inl htake)]
      · have hlt : cap ≤ (ds.map key).eraseDups.length := by
          by_contra hlt
          rw [List.take_of_length_le (by omega), List.mem_eraseDups] at htake
          exact htake hmem
        rw [if_pos (Or.inr (by omega))]
    · have hone : ([d].map key).removeAll (ds.map key) = [key d] := by
        simpa [List.removeAll] using hmem
      have hsingle : [key d].eraseDups = [key d] := by simp [List.eraseDups_cons]
      have hnot : key d ∉ (ds.map key).eraseDups.take cap := fun ht =>
        hmem (List.mem_eraseDups.mp (List.mem_of_mem_take ht))
      rw [hone, hsingle]
      by_cases hlt : cap ≤ (ds.map key).eraseDups.length
      · rw [if_pos (Or.inr (by omega)), List.take_append_of_le_length hlt]
      · rw [if_neg (not_or.mpr ⟨hnot, by omega⟩), List.take_of_length_le (by omega),
          List.take_of_length_le (by rw [List.length_append, List.length_singleton]; omega)]

end Merge

end Keyed
