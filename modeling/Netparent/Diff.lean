/-
  The events of a republish patch the snapshot before it to the one it publishes.

  `diff_and_emit` is the merge pass of `Lib/SortedDiff` (`diffEvents_eq`); it is right because both
  lists are snapshots, strictly ascending. That holds of the saved list along every run of
  republishes (`watcherAfter_prev`), since each one saves the list it has just rebuilt.
  `Patches` says what the web app makes of the events with its own store operations.
-/
import Netparent.Frame
import Netparent.Web.Delivery

namespace Netparent

open SortedDiff (Edit Sorted)
open Web (SameDevices snapshotMap patchMap deviceOf)

/-! ## The merge pass -/

def Event.toEdit : Event → Edit Dev Str
  | .added d => .added d
  | .changed d => .changed d
  | .removed m => .removed m

theorem toEdit_about (e : Event) : e.toEdit.about Dev.mac = e.mac := by
  cases e <;> rfl

theorem diffEvents_eq (old new : List Dev) :
    (diffEvents old new).map Event.toEdit = SortedDiff.diff Dev.mac devsDiffer old new := by
  induction old, new using diffEvents.induct with
  | case1 ns =>
    rw [diffEvents, SortedDiff.diff, List.map_map]
    rfl
  | case2 p ps =>
    rw [diffEvents, SortedDiff.diff, List.map_map]
    rfl
  | case3 p ps n ns c hc ih =>
    have hkey : p.mac = n.mac := strcmp_eq_zero.mp hc
    rw [diffEvents, SortedDiff.diff, if_pos hc, if_pos hkey, List.map_append, ih]
    by_cases hd : devsDiffer p n = true
    · rw [if_pos hd, if_pos hd]; rfl
    · rw [if_neg hd, if_neg hd]; rfl
  | case4 p ps n ns c hc hlt ih =>
    have hkey : ¬ p.mac = n.mac := mt strcmp_eq_zero.mpr hc
    rw [diffEvents, SortedDiff.diff, if_neg hc, if_neg hkey, if_pos hlt, if_pos (strcmp_neg.mp hlt),
      List.map_cons, ih]
    rfl
  | case5 p ps n ns c hc hlt ih =>
    have hkey : ¬ p.mac = n.mac := mt strcmp_eq_zero.mpr hc
    rw [diffEvents, SortedDiff.diff, if_neg hc, if_neg hkey, if_neg hlt,
      if_neg (mt strcmp_neg.mpr hlt), List.map_cons, ih]
    rfl

/-- `devs_differ` compares everything but `last_seen`. -/
theorem devsDiffer_eq_false {a b : Dev} :
    devsDiffer a b = false ↔ a.mac = b.mac ∧ a.ip = b.ip ∧ a.hostname = b.hostname ∧
      a.blocked = b.blocked ∧ a.leaseExpires = b.leaseExpires := by
  unfold devsDiffer
  simp only [ne_eq, strcmp_eq_zero]
  split_ifs <;> simp_all

/-! ## Patching -/

/-- The events take the device map of `old` to that of `new`, up to `last_seen`, and say nothing else. -/
structure Patches (old : List Dev) (events : List Event) (new : List Dev) : Prop where
  map_eq : ∀ (s : Web.Store) (id : Str) (stamped : List (Event × Int)),
    stamped.map Prod.fst = events → s.devicesOf id = snapshotMap old →
      ∃ s', s.applyEvents id stamped = .ok s' ∧ SameDevices (s'.devicesOf id) (snapshotMap new)
  once : (events.map Event.mac).Nodup
  added_absent : ∀ d, .added d ∈ events → d.mac ∉ old.map Dev.mac
  removed_absent : ∀ m, .removed m ∈ events → m ∉ new.map Dev.mac
  unchanged : ∀ p ∈ old, ∀ d ∈ new, p.mac = d.mac → p.ip = d.ip → p.hostname = d.hostname →
    p.blocked = d.blocked → p.leaseExpires = d.leaseExpires → ∀ e ∈ events, e.mac ≠ d.mac

/-- The web app's map follows the abstract one. -/
theorem patchMap_follows {m : Web.Devices} {f : Str → Option Dev}
    (hm : ∀ k, m.lookup k = (f k).map fun d => some (deviceOf d)) (e : Event) (k : Str) :
    (patchMap m e).lookup k =
      (SortedDiff.apply Dev.mac f e.toEdit k).map fun d => some (deviceOf d) := by
  by_cases hk : k = e.mac
  · cases e with
    | added d =>
      rw [hk, Event.toEdit, Event.mac, SortedDiff.apply_added, patchMap, Finmap.lookup_insert]
      rfl
    | changed d =>
      rw [hk, Event.toEdit, Event.mac, SortedDiff.apply_changed, patchMap, Finmap.lookup_insert]
      rfl
    | removed mac =>
      rw [hk, Event.toEdit, Event.mac, SortedDiff.apply_removed, patchMap, Finmap.lookup_erase]
      rfl
  · have hedit : k ≠ e.toEdit.about Dev.mac := toEdit_about e ▸ hk
    rw [SortedDiff.apply_of_ne f hedit, ← hm]
    cases e with
    | added d => exact Finmap.lookup_insert_of_ne _ hk
    | changed d => exact Finmap.lookup_insert_of_ne _ hk
    | removed mac => exact Finmap.lookup_erase_ne hk

theorem foldl_patchMap_follows {m : Web.Devices} {f : Str → Option Dev}
    (hm : ∀ k, m.lookup k = (f k).map fun d => some (deviceOf d)) (es : List Event) (k : Str) :
    (es.foldl patchMap m).lookup k =
      ((es.map Event.toEdit).foldl (SortedDiff.apply Dev.mac) f k).map
        fun d => some (deviceOf d) := by
  induction es generalizing m f with
  | nil => exact hm k
  | cons e es ih => exact ih (patchMap_follows hm e)

theorem foldl_patchMap_diff {old new : List Dev} (ho : Sorted Dev.mac old)
    (hn : Sorted Dev.mac new) :
    SameDevices ((diffEvents old new).foldl patchMap (snapshotMap old)) (snapshotMap new) := by
  intro k
  have hobs : ∀ a b : Dev, a.mac = b.mac → devsDiffer a b = false →
      (deviceOf a).seenless = (deviceOf b).seenless := by
    intro a b _ hd
    obtain ⟨hmac, hip, hhost, hblocked, hexp⟩ := devsDiffer_eq_false.mp hd
    simp [deviceOf, Web.Device.seenless, hmac, hip, hhost, hblocked, hexp]
  have hpatch := SortedDiff.patch_diff (fun d => (deviceOf d).seenless) hobs ho hn k
  have hfollow := foldl_patchMap_follows (fun j => Web.lookup_snapshotMap ho.nodup j)
    (diffEvents old new) k
  have hmap : ∀ o : Option Dev, (o.map fun d => some (deviceOf d)).map (Option.map Web.Device.seenless) =
      (o.map fun d => (deviceOf d).seenless).map some := by
    intro o
    cases o <;> rfl
  rw [hfollow, Web.lookup_snapshotMap hn.nodup, diffEvents_eq, hmap, hmap]
  -- the library decides equality of keys by their order
  refine congrArg (Option.map some) ?_
  convert hpatch

/-- The merge pass over two snapshots. -/
theorem diffEvents_patches {old new : List Dev} (ho : Sorted Dev.mac old)
    (hn : Sorted Dev.mac new) : Patches old (diffEvents old new) new := by
  have hmem : ∀ e, e ∈ diffEvents old new → e.toEdit ∈ SortedDiff.diff Dev.mac devsDiffer old new :=
    fun e he => diffEvents_eq old new ▸ List.mem_map_of_mem he
  refine ⟨?_, ?_, ?_, ?_, ?_⟩
  · rintro s id stamped hst hs
    obtain ⟨s', hs', htook⟩ := Web.Store.applyEvents_took stamped s id
    refine ⟨s', hs', ?_⟩
    rw [htook.devices, hst, hs]
    exact foldl_patchMap_diff ho hn
  · have : ((SortedDiff.diff Dev.mac devsDiffer old new).map (Edit.about Dev.mac)).Nodup :=
      SortedDiff.about_nodup ho hn
    rw [← diffEvents_eq, List.map_map] at this
    rwa [show Event.mac = Edit.about Dev.mac ∘ Event.toEdit from funext fun e => (toEdit_about e).symm]
  · intro d hd
    exact (SortedDiff.mem_diff ho hn (hmem _ hd)).2
  · intro m hm
    exact (SortedDiff.mem_diff ho hn (hmem _ hm)).2
  · -- an event about `d` would be a change, and `devs_differ` finds none
    intro p hp d hd hmac hip hhost hblocked hexp e he hed
    have hsame : devsDiffer p d = false := devsDiffer_eq_false.mpr ⟨hmac, hip, hhost, hblocked, hexp⟩
    have hedit := SortedDiff.mem_diff ho hn (hmem e he)
    cases e with
    | added a =>
      have hmac' : a.mac = p.mac := hed.trans hmac.symm
      exact hedit.2 (hmac' ▸ List.mem_map_of_mem hp)
    | changed a =>
      obtain ⟨ha, q, hq, hqa, hdiff⟩ := hedit
      have hda : d = a := by
        have h1 := Keyed.find?_of_mem hn.nodup hd
        have h2 := Keyed.find?_of_mem hn.nodup ha
        rw [show a.mac = d.mac from hed] at h2
        exact Option.some.inj (h1.symm.trans h2)
      have hqp : q = p := by
        have h1 := Keyed.find?_of_mem ho.nodup hq
        have h2 := Keyed.find?_of_mem ho.nodup hp
        rw [show p.mac = q.mac from hmac.trans (hda ▸ hqa.symm)] at h2
        exact Option.some.inj (h1.symm.trans h2)
      rw [hqp, ← hda, hsame] at hdiff
      exact absurd hdiff (by decide)
    | removed m =>
      have hm : m = d.mac := hed
      exact hedit.2 (hm ▸ List.mem_map_of_mem hd)

/-! ## Runs -/

variable {κ : Type}

/-- One call of `np_leases_republish` on whatever machine it finds. -/
def republishOn (cfg : Config) (l : NpLeases) (call : Host κ × κ) : NpLeases × World κ :=
  npLeasesRepublish call.1 cfg l { host := call.2 }

/-- The watcher after a run of calls. -/
def watcherAfter (cfg : Config) (path : Option Str) (calls : List (Host κ × κ)) : NpLeases :=
  calls.foldl (fun l call => (republishOn cfg l call).1) (npLeasesCreate path)

/-- What a call publishes after a run of calls. -/
def publishedAfter (cfg : Config) (path : Option Str) (calls : List (Host κ × κ))
    (call : Host κ × κ) : List Msg :=
  messagesOf (republishOn cfg (watcherAfter cfg path calls) call).2.trace

theorem watcherAfter_concat (cfg : Config) (path : Option Str) (calls : List (Host κ × κ))
    (call : Host κ × κ) : watcherAfter cfg path (calls ++ [call]) =
      (republishOn cfg (watcherAfter cfg path calls) call).1 := by
  rw [watcherAfter, List.foldl_append]
  rfl

/-- The list saved by a run that is not empty is the one its last call built, a snapshot. -/
theorem watcherAfter_prev (cfg : Config) (path : Option Str) (calls : List (Host κ × κ))
    (call : Host κ × κ) :
    (watcherAfter cfg path (calls ++ [call])).firstRun = false ∧
      (watcherAfter cfg path (calls ++ [call])).prev =
        (rebuildSnapshot call.1 cfg (watcherAfter cfg path calls) { host := call.2 }).list := by
  rw [watcherAfter_concat, republishOn, npLeasesRepublish_watcher]
  exact ⟨rfl, rfl⟩

/-- **From the second call on, the events patch the snapshot before.** -/
theorem republish_patches (cfg : Config) (path : Option Str) (calls : List (Host κ × κ))
    (call₁ call₂ : Host κ × κ) :
    ∃ updatedAt₁ old events updatedAt₂ new,
      (publishedAfter cfg path calls call₁).getLast? = some (.devices updatedAt₁ old) ∧
      publishedAfter cfg path (calls ++ [call₁]) call₂ =
        events.map .event ++ [.devices updatedAt₂ new] ∧
      Patches old events new := by
  let l₁ := watcherAfter cfg path calls
  let l₂ := watcherAfter cfg path (calls ++ [call₁])
  obtain ⟨t₁, h₁⟩ := npLeasesRepublish_messages call₁.1 cfg l₁ { host := call₁.2 }
  obtain ⟨t₂, h₂⟩ := npLeasesRepublish_messages call₂.1 cfg l₂ { host := call₂.2 }
  obtain ⟨hfirst, hprev⟩ := watcherAfter_prev cfg path calls call₁
  rw [show l₂.firstRun = false from hfirst, show l₂.prev = _ from hprev] at h₂
  refine ⟨t₁, _, _, t₂, _, ?_, h₂, diffEvents_patches (rebuildSnapshot call₁.1 cfg l₁ _).sorted
    (rebuildSnapshot call₂.1 cfg l₂ _).sorted⟩
  rw [publishedAfter, republishOn, h₁, List.getLast?_concat]
  rfl

end Netparent
