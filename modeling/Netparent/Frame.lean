/-
  What a rebuild and a publish leave alone, and what a republish publishes.

  `KeepsAsking` is an observation of the world that the listing, the lookups and the clock leave
  alone; `Keeps` adds the lease file, `KeepsAll` the messages. Each function of leases.c
  keeps what its parts keep, so an observation has to be checked against the five calls
  only. Two kinds are used: what has been published (`sent_keeps`), and a view of the host's state
  that those calls do not change (`Quiet`), such as the nftables set.
-/
import Netparent.Rebuild

namespace Netparent

variable {κ α : Type} {h : Host κ} {cfg : Config} {obs : World κ → α}

/-- Asking nft and the clock leaves `obs` alone. -/
structure KeepsAsking (h : Host κ) (cfg : Config) (obs : World κ → α) : Prop where
  listed : ∀ w, obs (w.popen h (listSetCmd cfg)).2 = obs w
  asked : ∀ (m : Mac) w, obs (w.system h (getElementCmd cfg m.text)).2 = obs w
  timed : ∀ w, obs (w.time h).2 = obs w

/-- Reading, the lease file included, leaves `obs` alone. -/
structure Keeps (h : Host κ) (cfg : Config) (obs : World κ → α) : Prop
    extends KeepsAsking h cfg obs where
  opened : ∀ path w, obs (w.fopen h path).2 = obs w

/-- Reading and publishing leave `obs` alone. -/
structure KeepsAll (h : Host κ) (cfg : Config) (obs : World κ → α) : Prop
    extends Keeps h cfg obs where
  published : ∀ m w, obs (w.publish h cfg m).2 = obs w

/-- A view of the host's state that the daemon's reads and messages do not change. -/
structure Quiet (h : Host κ) (cfg : Config) (view : κ → α) : Prop where
  list : ∀ k, view (h.popen (listSetCmd cfg) k).2 = view k
  get : ∀ (m : Mac) k, view (h.system (getElementCmd cfg m.text) k).2 = view k
  time : ∀ k, view (h.time k).2 = view k
  publish : ∀ topic body retain k, view (h.publish topic body retain k).2 = view k

theorem Quiet.keepsAll {view : κ → α} (hq : Quiet h cfg view) :
    KeepsAll h cfg fun w => view w.host where
  listed w := hq.list w.host
  asked m w := hq.get m w.host
  opened _ _ := rfl
  timed w := hq.time w.host
  published _ w := hq.publish _ _ _ w.host

theorem Keeps.comp {β : Type} (hk : Keeps h cfg obs) (f : α → β) :
    Keeps h cfg fun w => f (obs w) where
  listed w := congrArg f (hk.listed w)
  asked m w := congrArg f (hk.asked m w)
  opened path w := congrArg f (hk.opened path w)
  timed w := congrArg f (hk.timed w)

/-- What has been published. -/
theorem sent_keeps : Keeps h cfg fun w => sentOf w.trace where
  listed w := by simp [World.popen]
  asked m w := by simp [World.system]
  opened path w := by simp [World.fopen]
  timed w := rfl

/-! ## Reading -/

namespace KeepsAsking

variable (hk : KeepsAsking h cfg obs)
include hk

theorem npNftList (w : World κ) : obs (npNftList h cfg w).2 = obs w := by
  have := hk.listed w
  unfold Netparent.npNftList
  dsimp only
  split <;> exact this

theorem npNftIsBlocked (mac : Str) (w : World κ) : obs (npNftIsBlocked h cfg mac w).2 = obs w := by
  unfold Netparent.npNftIsBlocked
  split
  · rfl
  · next norm hn =>
    have := hk.asked ⟨norm, npMacNormalize_canonical hn⟩ w
    dsimp only
    split
    · exact this
    · split <;> exact this

theorem parseLeaseLine (line : Str) (w : World κ) : obs (parseLeaseLine h line w).2 = obs w := by
  unfold Netparent.parseLeaseLine
  split
  · rfl
  · split
    · rfl
    · exact hk.timed w

theorem parsedLines (lines : List Str) (w : World κ) : obs (parsedLines h lines w).2 = obs w := by
  induction lines generalizing w with
  | nil => rfl
  | cons line lines ih => exact (ih _).trans (hk.parseLeaseLine _ w)

theorem fileRecords (path : Str) (w : World κ) :
    obs (fileRecords h path w).2 = obs (w.fopen h path).2 := by
  unfold Netparent.fileRecords
  dsimp only
  split
  · exact hk.parsedLines _ _
  · rfl

theorem markBlocked (ds : List Dev) (w : World κ) : obs (markBlocked h cfg ds w).2 = obs w := by
  induction ds generalizing w with
  | nil => rfl
  | cons d ds ih =>
    unfold Netparent.markBlocked
    split
    · exact ih w
    · exact (ih _).trans (hk.npNftIsBlocked d.mac w)

theorem rebuild_opened (l : NpLeases) (w : World κ) :
    obs (rebuild h cfg l w).2 = obs (w.fopen h l.path).2 := by
  unfold Netparent.rebuild
  rw [readLeases_eq]
  exact (hk.markBlocked _ _).trans ((hk.npNftList _).trans (hk.fileRecords l.path w))

end KeepsAsking

theorem Keeps.rebuild (hk : Keeps h cfg obs) (l : NpLeases) (w : World κ) :
    obs (rebuild h cfg l w).2 = obs w :=
  (hk.rebuild_opened l w).trans (hk.opened l.path w)

/-! ## Publishing -/

/-- Events leave alone what one event does. -/
theorem emitAll_keeps (obs : World κ → α)
    (he : ∀ e w, obs (w.publish h cfg (.event e)).2 = obs w) (es : List Event)
    (w : World κ) : obs (es.foldl (emitEvent h cfg) w) = obs w := by
  induction es generalizing w with
  | nil => rfl
  | cons e es ih => exact (ih _).trans (he e w)

theorem diffAndEmit_keeps (obs : World κ → α)
    (he : ∀ e w, obs (w.publish h cfg (.event e)).2 = obs w) (l : NpLeases) (w : World κ) :
    obs (diffAndEmit h cfg l w).2 = obs w := by
  unfold diffAndEmit
  split
  · rfl
  · exact emitAll_keeps obs he _ w

namespace KeepsAll

variable (hk : KeepsAll h cfg obs)
include hk

theorem publishSnapshot (l : NpLeases) (w : World κ) : obs (publishSnapshot h cfg l w) = obs w :=
  (hk.published _ _).trans (hk.timed w)

theorem npLeasesRepublish (l : NpLeases) (w : World κ) :
    obs (npLeasesRepublish h cfg l w).2 = obs w :=
  (hk.publishSnapshot _ _).trans
    ((diffAndEmit_keeps obs (fun e => hk.published (.event e)) _ _).trans (hk.rebuild l w))

theorem reply (reqId : Option Str) (ok : Bool) (action key val : Str) (w : World κ) :
    obs (reply h cfg reqId ok action key val w) = obs w := by
  unfold Netparent.reply
  split
  · rfl
  · split
    · rfl
    · exact hk.published _ w

theorem republishLeases (leases : Option NpLeases) (w : World κ) :
    obs (republishLeases h cfg leases w).2 = obs w := by
  cases leases with
  | none => rfl
  | some l => exact hk.npLeasesRepublish l w

end KeepsAll

/-! ## What a republish publishes -/

/-- The messages handed to libmosquitto, whatever the outcome. -/
def messagesOf (trace : List Act) : List Msg := (sentOf trace).map Prod.fst

theorem publish_messages (h : Host κ) (cfg : Config) (m : Msg) (w : World κ) :
    messagesOf (w.publish h cfg m).2.trace = messagesOf w.trace ++ [m] := by
  simp [messagesOf, World.publish]

theorem messages_keeps : Keeps h cfg fun w => messagesOf w.trace :=
  sent_keeps.comp (List.map Prod.fst)

theorem emitAll_messages (h : Host κ) (cfg : Config) (es : List Event) (w : World κ) :
    messagesOf (es.foldl (emitEvent h cfg) w).trace = messagesOf w.trace ++ es.map .event := by
  induction es generalizing w with
  | nil => simp
  | cons e es ih =>
    rw [List.foldl_cons, ih, emitEvent, publish_messages, List.map_cons, List.append_assoc,
      List.singleton_append]

/-- The watcher after a republish: both lists are the one just built. -/
theorem npLeasesRepublish_watcher (h : Host κ) (cfg : Config) (l : NpLeases) (w : World κ) :
    (npLeasesRepublish h cfg l w).1 =
      { l with list := (rebuild h cfg l w).1.list
               prev := (rebuild h cfg l w).1.list
               firstRun := false } := by
  unfold npLeasesRepublish diffAndEmit
  dsimp only
  split
  · rfl
  · next hf =>
    have : l.firstRun = false := by simpa [rebuild] using hf
    simp [rebuild, this]

theorem diffAndEmit_list (h : Host κ) (cfg : Config) (l : NpLeases) (w : World κ) :
    (diffAndEmit h cfg l w).1.list = l.list := by
  unfold diffAndEmit
  split <;> rfl

/-- The messages of `diff_and_emit`. -/
theorem diffAndEmit_messages (h : Host κ) (cfg : Config) (l : NpLeases) (w : World κ) :
    messagesOf (diffAndEmit h cfg l w).2.trace =
      messagesOf w.trace ++ if l.firstRun then [] else (diffEvents l.prev l.list).map Msg.event := by
  unfold diffAndEmit
  split
  · simp
  · exact emitAll_messages h cfg _ w

/-- A republish publishes the differences to the list before, none on the first run, and then
    the snapshot, stamped with a reading of the clock. -/
theorem npLeasesRepublish_sends (h : Host κ) (cfg : Config) (l : NpLeases) (w : World κ) :
    ∃ k, messagesOf (npLeasesRepublish h cfg l w).2.trace =
      messagesOf w.trace ++
        (if l.firstRun then [] else
          (diffEvents l.prev (rebuild h cfg l w).1.list).map Msg.event) ++
        [.devices (h.time k).1 (rebuild h cfg l w).1.list] := by
  have hread : messagesOf (rebuild h cfg l w).2.trace = messagesOf w.trace :=
    messages_keeps.rebuild l w
  have hemit := diffAndEmit_messages h cfg (rebuild h cfg l w).1 (rebuild h cfg l w).2
  rw [hread] at hemit
  refine ⟨(diffAndEmit h cfg (rebuild h cfg l w).1 (rebuild h cfg l w).2).2.host, ?_⟩
  unfold npLeasesRepublish publishSnapshot
  dsimp only
  rw [publish_messages, diffAndEmit_list]
  exact congrArg (· ++ _) hemit

theorem npLeasesRepublish_messages (h : Host κ) (cfg : Config) (l : NpLeases) (w : World κ) :
    ∃ updatedAt, messagesOf (npLeasesRepublish h cfg l w).2.trace =
      messagesOf w.trace ++
        (if l.firstRun then [] else
          (diffEvents l.prev (rebuild h cfg l w).1.list).map Msg.event) ++
        [.devices updatedAt (rebuild h cfg l w).1.list] := by
  obtain ⟨k, hk⟩ := npLeasesRepublish_sends h cfg l w
  exact ⟨_, hk⟩

end Netparent
