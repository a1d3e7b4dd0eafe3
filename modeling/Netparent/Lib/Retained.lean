/-
  Retained messages: for each key the last message published under it, which is what a new subscriber
  is sent, in no particular order.

  `final_kept` is what a register holds after the kept messages, and `final_settled` what it holds after the
  whole history. They agree for a register that the messages of one key write, when any other
  message that writes it is followed by one of that key.
-/
import Netparent.Lib.Register

namespace Retained

open Register (final)

variable {ι κ β : Type*} [DecidableEq κ] {key : ι → Option κ}

/-- The last message under a key. -/
def last (key : ι → Option κ) (k : κ) (ms : List ι) : Option ι :=
  (ms.filter fun m => key m = some k).getLast?

/-- The messages kept; one without a key is not. -/
def kept (key : ι → Option κ) : List ι → List ι
  | [] => []
  | m :: ms => match key m with
      | none => kept key ms
      | some k => if (last key k ms).isSome then kept key ms else m :: kept key ms

theorem last_cons_of_ne {m : ι} {k : κ} (h : key m ≠ some k) (ms : List ι) :
    last key k (m :: ms) = last key k ms := by
  rw [last, List.filter_cons_of_neg (by simpa using h), last]

theorem last_cons_of_eq {m : ι} {k : κ} (h : key m = some k) (ms : List ι) :
    last key k (m :: ms) = some ((last key k ms).getD m) := by
  rw [last, List.filter_cons_of_pos (by simpa using h), List.getLast?_cons, last]

theorem last_key {k : κ} {ms : List ι} {m : ι} (h : last key k ms = some m) :
    m ∈ ms ∧ key m = some k := by
  have hm := List.mem_filter.mp (List.mem_of_getLast? h)
  exact ⟨hm.1, by simpa using hm.2⟩

theorem last_isSome {k : κ} {ms : List ι} {m : ι} (hm : m ∈ ms) (hk : key m = some k) :
    (last key k ms).isSome = true := by
  rw [last, Option.isSome_iff_ne_none, Ne, List.getLast?_eq_none_iff]
  exact List.ne_nil_of_mem (List.mem_filter.mpr ⟨hm, by simpa using hk⟩)

/-- Under each key exactly the last message is kept. -/
theorem kept_filter (k : κ) (ms : List ι) :
    (kept key ms).filter (fun m => key m = some k) = (last key k ms).toList := by
  induction ms with
  | nil => rfl
  | cons m ms ih =>
    rw [kept]
    cases hm : key m with
    | none =>
      rw [last_cons_of_ne (by rw [hm]; nofun)]
      exact ih
    | some k' =>
      dsimp only
      by_cases hk : k' = k
      · subst hk
        rw [last_cons_of_eq hm]
        cases hlast : last key k' ms with
        | some m' =>
          rw [if_pos Option.isSome_some, ih, hlast]
          rfl
        | none =>
          rw [if_neg (by simp), List.filter_cons_of_pos (by simpa using hm), ih, hlast]
          rfl
      · have hne : key m ≠ some k := by
          rw [hm]
          exact fun he => hk (Option.some.inj he)
        rw [last_cons_of_ne hne]
        split
        · exact ih
        · rw [List.filter_cons_of_neg (by simpa using hne)]
          exact ih

theorem mem_of_kept {ms : List ι} {m : ι} (h : m ∈ kept key ms) : m ∈ ms ∧ key m ≠ none := by
  induction ms with
  | nil => cases h
  | cons m' ms ih =>
    rw [kept] at h
    split at h
    · exact ⟨List.mem_cons_of_mem _ (ih h).1, (ih h).2⟩
    · next k hk =>
      split at h
      · exact ⟨List.mem_cons_of_mem _ (ih h).1, (ih h).2⟩
      · rcases List.mem_cons.mp h with rfl | h
        · exact ⟨List.mem_cons_self, by rw [hk]; nofun⟩
        · exact ⟨List.mem_cons_of_mem _ (ih h).1, (ih h).2⟩

/-- What the kept messages leave in a register that only those of key `k` write: what the last of
    them wrote. -/
theorem final_kept {touch : ι → Option β} {k : κ} {ms order : List ι}
    (hperm : order.Perm (kept key ms))
    (honly : ∀ m ∈ ms, key m ≠ none → touch m ≠ none → key m = some k) (init : β) :
    final touch init order = ((last key k ms).bind touch).getD init := by
  have hmem : ∀ m ∈ order, m ∈ ms ∧ key m ≠ none := fun m hm => mem_of_kept (hperm.mem_iff.mp hm)
  -- the messages of other keys leave the register alone
  have hfilter : final touch init order = final touch init (order.filter fun m => key m = some k) := by
    rw [Register.final_filter]
    refine Register.final_congr (fun m hm => ?_) init
    by_cases hk : key m = some k
    · rw [if_pos (by simpa using hk)]
    · rw [if_neg (by simpa using hk)]
      by_contra hne
      exact hk (honly m (hmem m hm).1 (hmem m hm).2 hne)
  have hone := hperm.filter fun m => decide (key m = some k)
  rw [kept_filter] at hone
  rw [hfilter]
  cases hlast : last key k ms with
  | none =>
    rw [hlast] at hone
    rw [List.perm_nil.mp hone]
    rfl
  | some m =>
    rw [hlast] at hone
    rw [List.perm_singleton.mp hone, Register.final_cons]
    rfl

/-- Whatever else writes the register is followed by a message of key `k`. -/
def Settled (key : ι → Option κ) (k : κ) (touch : ι → Option β) (ms : List ι) : Prop :=
  ∀ before m after, ms = before ++ m :: after → touch m ≠ none → key m ≠ some k →
    ∃ m' ∈ after, key m' = some k

/-- What a settled history leaves in the register, when every message of key `k` writes it. -/
theorem final_settled {touch : ι → Option β} {k : κ} {ms : List ι} (hs : Settled key k touch ms)
    (htouch : ∀ m ∈ ms, key m = some k → touch m ≠ none) (init : β) :
    final touch init ms = ((last key k ms).bind touch).getD init := by
  induction ms generalizing init with
  | nil => rfl
  | cons m ms ih =>
    have hs' : Settled key k touch ms := fun before m' after heq =>
      hs (m :: before) m' after (congrArg (m :: ·) heq)
    have htouch' : ∀ m ∈ ms, key m = some k → touch m ≠ none := fun m' hm' =>
      htouch m' (List.mem_cons_of_mem _ hm')
    rw [Register.final_cons, ih hs' htouch']
    cases hlast : last key k ms with
    | some m' =>
      -- a later message of the key decides
      obtain ⟨v, hv⟩ := Option.ne_none_iff_exists'.mp
        (htouch' m' (last_key hlast).1 (last_key hlast).2)
      have hcons : last key k (m :: ms) = some m' := by
        by_cases hk : key m = some k
        · rw [last_cons_of_eq hk, hlast]
          rfl
        · rw [last_cons_of_ne hk, hlast]
      rw [hcons, Option.bind_some, hv]
      rfl
    | none =>
      by_cases hk : key m = some k
      · rw [last_cons_of_eq hk, hlast]
        rfl
      · have hnone : touch m = none := by
          by_contra hne
          obtain ⟨m', hm', hk'⟩ := hs [] m ms rfl hne hk
          have hsome := last_isSome hm' hk'
          rw [hlast] at hsome
          cases hsome
        rw [last_cons_of_ne hk, hlast, hnone]
        rfl

end Retained
