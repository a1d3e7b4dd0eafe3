/-
  The difference of two lists sorted strictly by a key, computed by one merge pass with two
  cursors, as edits on the finite map a list denotes.

  `patch_diff`: applied to the map of the old list, the edits give the map of the new one,
  except that an entry the `differ` test does not tell from the old one is left as it was.
  `diff_pairwise`: the edits' keys are strictly ascending, so no key is edited twice.
  `mem_diff`: what each kind of edit says about the two lists.
-/
import Netparent.Lib.Keyed

namespace SortedDiff

open Keyed (find? find?_nil find?_cons find?_eq_none)

/-- One edit of a keyed table. -/
inductive Edit (α κ : Type*) where
  | added (a : α)
  | changed (a : α)
  | removed (k : κ)

variable {α κ : Type*} [LinearOrder κ] (key : α → κ) (differ : α → α → Bool)

/-- The key an edit is about. -/
def Edit.about : Edit α κ → κ
  | .added a => key a
  | .changed a => key a
  | .removed k => k

/-- Merge the two lists from the front, by key. -/
def diff : List α → List α → List (Edit α κ)
  | [], ns => ns.map .added
  | p :: ps, [] => (p :: ps).map fun q => .removed (key q)
  | p :: ps, n :: ns =>
      if key p = key n then (if differ p n then [.changed n] else []) ++ diff ps ns
      else if key p < key n then .removed (key p) :: diff ps (n :: ns)
      else .added n :: diff (p :: ps) ns
termination_by ps ns => ps.length + ns.length

/-- The effect of one edit on the map from keys to entries. -/
def apply (m : κ → Option α) : Edit α κ → κ → Option α
  | .added a => Function.update m (key a) (some a)
  | .changed a => Function.update m (key a) (some a)
  | .removed k => Function.update m k none

/-- Strictly ascending by key. -/
def Sorted (l : List α) : Prop := l.Pairwise fun a b => key a < key b

variable {key differ}

theorem apply_added (m : κ → Option α) (a : α) : apply key m (.added a) (key a) = some a :=
  Function.update_self ..

theorem apply_changed (m : κ → Option α) (a : α) : apply key m (.changed a) (key a) = some a :=
  Function.update_self ..

theorem apply_removed (m : κ → Option α) (k : κ) : apply key m (.removed k) k = none :=
  Function.update_self ..

/-- An edit changes nothing but the entry it is about. -/
theorem apply_of_ne (m : κ → Option α) {e : Edit α κ} {k : κ} (h : k ≠ e.about key) :
    apply key m e k = m k := by
  cases e <;> exact Function.update_of_ne h _ _

theorem Sorted.nodup {l : List α} (h : Sorted key l) : (l.map key).Nodup :=
  List.pairwise_map.mpr (h.imp fun hab => ne_of_lt hab)

theorem Sorted.tail {a : α} {l : List α} (h : Sorted key (a :: l)) : Sorted key l :=
  (List.pairwise_cons.mp h).2

theorem Sorted.head_lt {a : α} {l : List α} (h : Sorted key (a :: l)) :
    ∀ k ∈ l.map key, key a < k := by
  intro k hk
  obtain ⟨b, hb, rfl⟩ := List.mem_map.mp hk
  exact (List.pairwise_cons.mp h).1 b hb

theorem Sorted.lt_of_lt_head {k : κ} {a : α} {l : List α} (h : Sorted key (a :: l))
    (hk : k < key a) : ∀ j ∈ (a :: l).map key, k < j := by
  intro j hj
  rcases List.mem_cons.mp hj with rfl | hj
  · exact hk
  · exact hk.trans (h.head_lt j hj)

/-- Two sorted lists with the same entries are equal. -/
theorem Sorted.eq_of_perm {l l' : List α} (h : Sorted key l) (h' : Sorted key l')
    (hp : l.Perm l') : l = l' :=
  hp.eq_of_pairwise (fun _ _ _ _ hab hba => absurd hab (lt_asymm hba)) h h'

variable {old new : List α} {e : Edit α κ}

/-- Each edit is about a key of one of the two lists. -/
theorem about_diff (he : e ∈ diff key differ old new) :
    e.about key ∈ old.map key ∨ e.about key ∈ new.map key := by
  induction old, new using diff.induct key with
  | case1 ns =>
    rw [diff] at he
    obtain ⟨n, hn, rfl⟩ := List.mem_map.mp he
    exact Or.inr (List.mem_map.mpr ⟨n, hn, rfl⟩)
  | case2 p ps =>
    rw [diff] at he
    obtain ⟨q, hq, rfl⟩ := List.mem_map.mp he
    exact Or.inl (List.mem_map.mpr ⟨q, hq, rfl⟩)
  | case3 p ps n ns heq ih =>
    rw [diff, if_pos heq] at he
    rcases List.mem_append.mp he with he | he
    · split at he
      · rw [List.mem_singleton] at he
        subst he
        exact Or.inr (by simp [Edit.about])
      · cases he
    · rcases ih he with h | h
      · exact Or.inl (List.mem_cons_of_mem _ h)
      · exact Or.inr (List.mem_cons_of_mem _ h)
  | case4 p ps n ns hne hlt ih =>
    rw [diff, if_neg hne, if_pos hlt] at he
    rcases List.mem_cons.mp he with rfl | he
    · exact Or.inl (by simp [Edit.about])
    · rcases ih he with h | h
      · exact Or.inl (List.mem_cons_of_mem _ h)
      · exact Or.inr h
  | case5 p ps n ns hne hlt ih =>
    rw [diff, if_neg hne, if_neg hlt] at he
    rcases List.mem_cons.mp he with rfl | he
    · exact Or.inr (by simp [Edit.about])
    · rcases ih he with h | h
      · exact Or.inl h
      · exact Or.inr (List.mem_cons_of_mem _ h)

/-- Edits of two lists whose keys all exceed `k` are about keys that exceed `k`. -/
theorem lt_about_diff {k : κ} (ho : ∀ j ∈ old.map key, k < j) (hn : ∀ j ∈ new.map key, k < j)
    (he : e ∈ diff key differ old new) : k < e.about key := by
  rcases about_diff he with h | h
  · exact ho _ h
  · exact hn _ h

theorem head_lt_of_not_le {p n : α} (hne : ¬ key p = key n) (hlt : ¬ key p < key n) :
    key n < key p :=
  lt_of_le_of_ne (not_lt.mp hlt) (Ne.symm hne)

/-- The edits come in strictly ascending order of the keys they are about. -/
theorem diff_pairwise (ho : Sorted key old) (hn : Sorted key new) :
    (diff key differ old new).Pairwise fun e e' => e.about key < e'.about key := by
  induction old, new using diff.induct key with
  | case1 ns =>
    rw [diff, List.pairwise_map]
    exact hn
  | case2 p ps =>
    rw [diff, List.pairwise_map]
    exact ho
  | case3 p ps n ns heq ih =>
    rw [diff, if_pos heq, List.pairwise_append]
    refine ⟨by split <;> simp, ih ho.tail hn.tail, ?_⟩
    intro e he e' he'
    have hek : e.about key = key n := by
      split at he
      · rw [List.mem_singleton] at he; subst he; rfl
      · cases he
    rw [hek]
    exact lt_about_diff (heq ▸ ho.head_lt) hn.head_lt he'
  | case4 p ps n ns hne hlt ih =>
    rw [diff, if_neg hne, if_pos hlt, List.pairwise_cons]
    exact ⟨fun e' he' => lt_about_diff ho.head_lt (hn.lt_of_lt_head hlt) he', ih ho.tail hn⟩
  | case5 p ps n ns hne hlt ih =>
    rw [diff, if_neg hne, if_neg hlt, List.pairwise_cons]
    have hgt := head_lt_of_not_le hne hlt
    exact ⟨fun e' he' => lt_about_diff (ho.lt_of_lt_head hgt) hn.head_lt he', ih ho hn.tail⟩

/-- No key is edited twice. -/
theorem about_nodup (ho : Sorted key old) (hn : Sorted key new) :
    ((diff key differ old new).map (Edit.about key)).Nodup :=
  List.pairwise_map.mpr ((diff_pairwise ho hn).imp fun h => ne_of_lt h)

theorem find?_none_of_lt {k : κ} {l : List α} (h : ∀ j ∈ l.map key, k < j) :
    find? key k l = none :=
  find?_eq_none.mpr fun hk => lt_irrefl k (h k hk)

theorem foldl_added (hn : Sorted key new) (m : κ → Option α) (k : κ) :
    (new.map Edit.added).foldl (apply key) m k = (find? key k new).or (m k) := by
  induction new generalizing m with
  | nil => rfl
  | cons n ns ih =>
    rw [List.map_cons, List.foldl_cons, ih hn.tail, find?_cons]
    by_cases hk : key n = k
    · subst hk
      rw [find?_none_of_lt hn.head_lt]
      simp [apply]
    · have hku : apply key m (.added n) k = m k := Function.update_of_ne (Ne.symm hk) _ _
      rw [if_neg hk, hku]

theorem foldl_removed (ho : Sorted key old) (m : κ → Option α) (k : κ) :
    (old.map fun q => Edit.removed (key q)).foldl (apply key) m k =
      if (find? key k old).isSome then none else m k := by
  induction old generalizing m with
  | nil => rfl
  | cons q l ih =>
    rw [List.map_cons, List.foldl_cons, ih ho.tail, find?_cons]
    by_cases hk : key q = k
    · subst hk
      rw [find?_none_of_lt ho.head_lt]
      simp [apply]
    · have hku : apply key m (.removed (key q)) k = m k := Function.update_of_ne (Ne.symm hk) _ _
      rw [if_neg hk, hku]

/-- What the edits of two sorted lists make of a map `m`, key by key. -/
theorem foldl_apply_diff (ho : Sorted key old) (hn : Sorted key new) (m : κ → Option α) (k : κ) :
    (diff key differ old new).foldl (apply key) m k =
      match find? key k old, find? key k new with
      | some p, some n => if differ p n then some n else m k
      | none, some n => some n
      | some _, none => none
      | none, none => m k := by
  induction old, new using diff.induct key generalizing m with
  | case1 ns =>
    rw [diff, foldl_added hn]
    cases h : find? key k ns <;> simp
  | case2 p ps =>
    rw [diff, foldl_removed ho]
    cases h : find? key k (p :: ps) <;> simp
  | case3 p ps n ns heq ih =>
    rw [diff, if_pos heq, List.foldl_append, ih ho.tail hn.tail, find?_cons, find?_cons, ← heq]
    by_cases hk : key p = k
    · subst hk
      rw [find?_none_of_lt ho.head_lt, find?_none_of_lt (heq ▸ hn.head_lt)]
      by_cases hd : differ p n = true <;> simp [hd, apply, heq]
    · rw [if_neg hk, if_neg hk]
      have hkn : k ≠ key n := fun h => hk (heq.trans h.symm)
      by_cases hd : differ p n = true <;> simp [hd, apply, Function.update_of_ne hkn]
  | case4 p ps n ns hne hlt ih =>
    rw [diff, if_neg hne, if_pos hlt, List.foldl_cons, ih ho.tail hn, find?_cons (l := ps)]
    by_cases hk : key p = k
    · subst hk
      rw [find?_none_of_lt ho.head_lt, find?_none_of_lt (hn.lt_of_lt_head hlt)]
      simp [apply]
    · rw [if_neg hk]
      have hku : apply key m (.removed (key p)) k = m k := Function.update_of_ne (Ne.symm hk) _ _
      rw [hku]
  | case5 p ps n ns hne hlt ih =>
    have hgt := head_lt_of_not_le hne hlt
    rw [diff, if_neg hne, if_neg hlt, List.foldl_cons, ih ho hn.tail, find?_cons (l := ns)]
    by_cases hk : key n = k
    · subst hk
      rw [find?_none_of_lt (ho.lt_of_lt_head hgt), find?_none_of_lt hn.head_lt]
      simp [apply]
    · rw [if_neg hk]
      have hku : apply key m (.added n) k = m k := Function.update_of_ne (Ne.symm hk) _ _
      rw [hku]

/-- **The edits patch the old map to the new one**, in every observation `obs` that `differ`
    tells apart. -/
theorem patch_diff {β : Type*} (obs : α → β)
    (hd : ∀ a b, key a = key b → differ a b = false → obs a = obs b)
    (ho : Sorted key old) (hn : Sorted key new) (k : κ) :
    ((diff key differ old new).foldl (apply key) (fun j => find? key j old) k).map obs =
      (find? key k new).map obs := by
  rw [foldl_apply_diff ho hn]
  cases hp : find? key k old with
  | none => cases find? key k new <;> rfl
  | some p =>
    cases hq : find? key k new with
    | none => rfl
    | some n =>
      have hkey : key p = key n := (Keyed.key_of_find? hp).trans (Keyed.key_of_find? hq).symm
      cases hdiff : differ p n with
      | true => simp [hdiff]
      | false => simp [hdiff, hd p n hkey hdiff]

/-- What each edit says about the two lists. -/
theorem mem_diff (ho : Sorted key old) (hn : Sorted key new)
    (he : e ∈ diff key differ old new) :
    match e with
    | .added a => a ∈ new ∧ key a ∉ old.map key
    | .changed a => a ∈ new ∧ ∃ p ∈ old, key p = key a ∧ differ p a = true
    | .removed k => k ∈ old.map key ∧ k ∉ new.map key := by
  induction old, new using diff.induct key with
  | case1 ns =>
    rw [diff] at he
    obtain ⟨n, hmem, rfl⟩ := List.mem_map.mp he
    exact ⟨hmem, by simp⟩
  | case2 p ps =>
    rw [diff] at he
    obtain ⟨q, hmem, rfl⟩ := List.mem_map.mp he
    exact ⟨List.mem_map.mpr ⟨q, hmem, rfl⟩, by simp⟩
  | case3 p ps n ns heq ih =>
    rw [diff, if_pos heq] at he
    have hrest : e ∈ diff key differ ps ns → key n < e.about key := fun h =>
      lt_about_diff (heq ▸ ho.head_lt) hn.head_lt h
    rcases List.mem_append.mp he with he | he
    · split at he
      · next hd =>
        rw [List.mem_singleton] at he
        subst he
        exact ⟨List.mem_cons_self .., p, List.mem_cons_self .., heq, hd⟩
      · cases he
    · have hlt := hrest he
      have := ih ho.tail hn.tail he
      cases e with
      | added a =>
        refine ⟨List.mem_cons_of_mem _ this.1, ?_⟩
        rw [List.map_cons, List.mem_cons, heq, not_or]
        exact ⟨ne_of_gt hlt, this.2⟩
      | changed a =>
        obtain ⟨h1, q, hq, h2⟩ := this
        exact ⟨List.mem_cons_of_mem _ h1, q, List.mem_cons_of_mem _ hq, h2⟩
      | removed k =>
        refine ⟨List.mem_cons_of_mem _ this.1, ?_⟩
        rw [List.map_cons, List.mem_cons, not_or]
        exact ⟨ne_of_gt hlt, this.2⟩
  | case4 p ps n ns hne hlt ih =>
    rw [diff, if_neg hne, if_pos hlt] at he
    rcases List.mem_cons.mp he with rfl | he
    · exact ⟨by simp, fun h => lt_irrefl _ (hn.lt_of_lt_head hlt _ h)⟩
    · have hgt := lt_about_diff ho.head_lt (hn.lt_of_lt_head hlt) he
      have := ih ho.tail hn he
      cases e with
      | added a =>
        refine ⟨this.1, ?_⟩
        rw [List.map_cons, List.mem_cons, not_or]
        exact ⟨ne_of_gt hgt, this.2⟩
      | changed a =>
        obtain ⟨h1, q, hq, h2⟩ := this
        exact ⟨h1, q, List.mem_cons_of_mem _ hq, h2⟩
      | removed k => exact ⟨List.mem_cons_of_mem _ this.1, this.2⟩
  | case5 p ps n ns hne hlt ih =>
    have hnp := head_lt_of_not_le hne hlt
    rw [diff, if_neg hne, if_neg hlt] at he
    rcases List.mem_cons.mp he with rfl | he
    · exact ⟨List.mem_cons_self .., fun h => lt_irrefl _ (ho.lt_of_lt_head hnp _ h)⟩
    · have hgt := lt_about_diff (ho.lt_of_lt_head hnp) hn.head_lt he
      have := ih ho hn.tail he
      cases e with
      | added a => exact ⟨List.mem_cons_of_mem _ this.1, this.2⟩
      | changed a => exact ⟨List.mem_cons_of_mem _ this.1, this.2⟩
      | removed k =>
        refine ⟨this.1, ?_⟩
        rw [List.map_cons, List.mem_cons, not_or]
        exact ⟨ne_of_gt hgt, this.2⟩

end SortedDiff
