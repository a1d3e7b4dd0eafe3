/-
  MQTT topic filters.

  Topics and filters are cut into levels at the slashes. The level `+` of a filter stands for any
  one level, and a last level `#` for all that follow, be it none. A filter that begins with one of
  the two does not match a topic that begins with `$`.
-/
import Mathlib

namespace TopicFilter

def levels (s : List Char) : List (List Char) := s.splitOn '/'

def matchLevels : (filter topic : List (List Char)) → Bool
  | [], [] => true
  | [], _ :: _ => false
  | f :: fs, [] => f == ['#'] && fs.isEmpty
  | f :: fs, t :: ts =>
      (f == ['#'] && fs.isEmpty) || ((f == ['+'] || f == t) && matchLevels fs ts)

/-- The filter begins with a wildcard and the topic with `$`. -/
def reserved (filter topic : List Char) : Bool :=
  (filter.head? == some '+' || filter.head? == some '#') && topic.head? == some '$'

def accepts (filter topic : List Char) : Bool :=
  !reserved filter topic && matchLevels (levels filter) (levels topic)

/-! ## Levels -/

theorem levels_cons {s : List Char} (hs : '/' ∉ s) (t : List Char) :
    levels (s ++ '/' :: t) = s :: levels t := by
  refine List.splitOnP_append_cons_of_forall_mem (fun x hx => ?_) '/' (by simp) t
  have : x ≠ '/' := fun he => hs (he ▸ hx)
  simpa using this

/-! ## Matching -/

@[simp] theorem matchLevels_hash (ts : List (List Char)) : matchLevels [['#']] ts = true := by
  cases ts with
  | nil => rfl
  | cons t ts => simp [matchLevels]

@[simp] theorem matchLevels_plus (fs : List (List Char)) (t : List Char) (ts : List (List Char)) :
    matchLevels (['+'] :: fs) (t :: ts) = matchLevels fs ts := by
  simp [matchLevels]

/-- A level that is no wildcard matches itself. -/
theorem matchLevels_self {f : List Char} (hf : '#' ∉ f) (fs ts : List (List Char)) :
    matchLevels (f :: fs) (f :: ts) = matchLevels fs ts := by
  have hne : f ≠ ['#'] := fun he => hf (he ▸ List.mem_singleton_self '#')
  simp [matchLevels, hne]

theorem accepts_of_levels {filter topic : List Char} (hhead : ∀ c ∈ filter.head?, c ≠ '+' ∧ c ≠ '#')
    (h : matchLevels (levels filter) (levels topic) = true) : accepts filter topic = true := by
  have hfree : reserved filter topic = false := by
    unfold reserved
    cases hf : filter.head? with
    | none => rfl
    | some c =>
      obtain ⟨hplus, hhash⟩ := hhead c hf
      simp [hplus, hhash]
  rw [accepts, hfree, h]
  rfl

example : accepts "a/+/c".toList "a/b/c".toList = true := by decide

end TopicFilter
