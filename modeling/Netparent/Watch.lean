/-
  The watcher over time: what becomes of a dropped snapshot, and of a change of the file.

  Runs are sequences of polls and republishes on machines that may differ from call to call.
  The first part follows the snapshots handed to libmosquitto. The watcher's list is always that of
  the last one (`watch_inv`), whatever became of it, so a poll that publishes nothing leaves a
  dropped snapshot undelivered (`poll_delivers_iff`). The second part follows the file. A poll goes by
  its mtime and size alone, so it misses a write that leaves both as recorded
  (`polls_current`).
-/
import Netparent.Frame

namespace Netparent

/-! ## Snapshots in a trace -/

/-- The snapshots handed to libmosquitto, with the outcome. -/
def snapshotsOf (trace : List Act) : List (List Dev × Bool) :=
  trace.filterMap fun | .publish (.devices _ list) ok => some (list, ok) | _ => none

/-- The list of the last snapshot handed over. -/
def lastAttempted (trace : List Act) : Option (List Dev) :=
  (snapshotsOf trace).getLast?.map Prod.fst

/-- The list of the last snapshot delivered. -/
def lastDelivered (trace : List Act) : Option (List Dev) :=
  ((snapshotsOf trace).filter Prod.snd).getLast?.map Prod.fst

@[simp] theorem snapshotsOf_append (a b : List Act) :
    snapshotsOf (a ++ b) = snapshotsOf a ++ snapshotsOf b :=
  List.filterMap_append

theorem lastAttempted_concat {a b : List Act} {list : List Dev} {ok : Bool}
    (hs : snapshotsOf b = snapshotsOf a ++ [(list, ok)]) : lastAttempted b = some list := by
  rw [lastAttempted, hs, List.getLast?_concat]
  rfl

theorem lastDelivered_concat {a b : List Act} {list : List Dev}
    (hs : snapshotsOf b = snapshotsOf a ++ [(list, true)]) : lastDelivered b = some list := by
  rw [lastDelivered, hs, List.filter_append, List.filter_cons_of_pos rfl, List.filter_nil,
    List.getLast?_concat]
  rfl

/-- What has been read, and what the last snapshot was built from. -/
structure Reading where
  read : Option (Option Str) := none
  published : Option (Option Str) := none

def Reading.step (r : Reading) : Act → Reading
  | .read _ content => { r with read := some content }
  | .publish (.devices _ _) _ => { r with published := r.read }
  | _ => r

def readingOf (trace : List Act) : Reading := trace.foldl Reading.step {}

/-- The content of the lease file that the last snapshot handed over was built from. -/
def publishedFrom (trace : List Act) : Option (Option Str) := (readingOf trace).published

theorem readingOf_concat (trace : List Act) (a : Act) :
    readingOf (trace ++ [a]) = (readingOf trace).step a := by
  rw [readingOf, List.foldl_append]
  rfl

section Republish

variable {κ : Type} {h : Host κ} {cfg : Config}

theorem snapshots_keeps : Keeps h cfg fun w => snapshotsOf w.trace where
  listed _ := by simp [World.popen, snapshotsOf]
  asked _ _ := by simp [World.system, snapshotsOf]
  opened _ _ := by simp [World.fopen, snapshotsOf]
  timed _ := rfl

theorem reading_keepsAsking : KeepsAsking h cfg fun w => readingOf w.trace where
  listed _ := readingOf_concat _ _
  asked _ _ := readingOf_concat _ _
  timed _ := rfl

/-- Every publish of the machine succeeds. -/
def Connected (h : Host κ) : Prop := ∀ topic body retain k, (h.publish topic body retain k).1 = true

/-- A republish hands over one snapshot, of the list it leaves. -/
theorem npLeasesRepublish_snapshots (h : Host κ) (cfg : Config) (l : NpLeases) (w : World κ) :
    ∃ ok, snapshotsOf (npLeasesRepublish h cfg l w).2.trace =
        snapshotsOf w.trace ++ [((npLeasesRepublish h cfg l w).1.list, ok)] ∧
      (Connected h → ok = true) := by
  have hread : snapshotsOf (rebuild h cfg l w).2.trace = snapshotsOf w.trace :=
    snapshots_keeps.rebuild l w
  have hemit : snapshotsOf (diffAndEmit h cfg (rebuild h cfg l w).1 (rebuild h cfg l w).2).2.trace =
      snapshotsOf (rebuild h cfg l w).2.trace :=
    diffAndEmit_keeps (fun w => snapshotsOf w.trace)
      (fun e w => by simp [World.publish, snapshotsOf]) _ _
  unfold npLeasesRepublish publishSnapshot World.publish World.time
  dsimp only
  rw [snapshotsOf_append, hemit, hread]
  exact ⟨_, rfl, fun hc => hc _ _ _ _⟩

/-- The snapshot of a republish is built from the file as it was then. -/
theorem npLeasesRepublish_publishedFrom (h : Host κ) (cfg : Config) (l : NpLeases) (w : World κ) :
    publishedFrom (npLeasesRepublish h cfg l w).2.trace = some (h.fopen l.path w.host) := by
  have hread : readingOf (rebuild h cfg l w).2.trace =
      readingOf (w.fopen h l.path).2.trace := reading_keepsAsking.rebuild_opened l w
  have hemit : readingOf (diffAndEmit h cfg (rebuild h cfg l w).1 (rebuild h cfg l w).2).2.trace =
      readingOf (rebuild h cfg l w).2.trace :=
    diffAndEmit_keeps (fun w => readingOf w.trace) (fun _ _ => readingOf_concat _ _) _ _
  unfold npLeasesRepublish publishSnapshot World.publish World.time publishedFrom
  dsimp only
  rw [readingOf_concat, hemit, hread, World.fopen, readingOf_concat]
  rfl

theorem npLeasesRepublish_firstRun (h : Host κ) (cfg : Config) (l : NpLeases) (w : World κ) :
    (npLeasesRepublish h cfg l w).1.firstRun = false := by
  rw [npLeasesRepublish_watcher]

/-- The poll finds a reason to republish. -/
def Republishes (l : NpLeases) (st : Option Stat) : Prop :=
  l.firstRun = true ∨ fileChanged l st = true

theorem fileChanged_some {l : NpLeases} {st : Stat} : fileChanged l (some st) = true ↔
    st.mtime ≠ l.lastMtime ∨ st.size ≠ l.lastSize := by
  simp [fileChanged]

/-- A poll records the file's stat and republishes, or does nothing. -/
theorem npLeasesPoll_cases (h : Host κ) (cfg : Config) (l : NpLeases) (w : World κ) :
    (Republishes l (h.stat l.path w.host) ∧ ∃ l', l'.path = l.path ∧
      (l' = l ∨ l' = recordStat l (h.stat l.path w.host)) ∧
      npLeasesPoll h cfg l w = npLeasesRepublish h cfg l' w) ∨
    (¬ Republishes l (h.stat l.path w.host) ∧ npLeasesPoll h cfg l w = (l, w)) := by
  have hpath : ∀ st, (recordStat l st).path = l.path := fun st => by cases st <;> rfl
  unfold npLeasesPoll Republishes
  dsimp only
  cases hc : fileChanged l (h.stat l.path w.host) with
  | true => exact Or.inl ⟨Or.inr rfl, _, hpath _, Or.inr rfl, rfl⟩
  | false =>
    cases hf : l.firstRun with
    | true => exact Or.inl ⟨Or.inl rfl, l, rfl, Or.inl rfl, by simp⟩
    | false => exact Or.inr ⟨by simp, by simp⟩

end Republish

/-! ## Dropped snapshots -/

/-- A call into the watcher, on the machine as it is then. -/
inductive Call (κ : Type) where
  | poll (h : Host κ) (k : κ)
  | republish (h : Host κ) (k : κ)

structure Watch where
  watcher : NpLeases
  trace : List Act

variable {κ : Type}

def Watch.call (cfg : Config) (s : Watch) : Call κ → Watch
  | .poll h k =>
      let r := npLeasesPoll h cfg s.watcher { host := k, trace := s.trace }
      { watcher := r.1, trace := r.2.trace }
  | .republish h k =>
      let r := npLeasesRepublish h cfg s.watcher { host := k, trace := s.trace }
      { watcher := r.1, trace := r.2.trace }

/-- A run of calls. -/
def watch (cfg : Config) (path : Option Str) (calls : List (Call κ)) : Watch :=
  calls.foldl (Watch.call cfg) { watcher := npLeasesCreate path, trace := [] }

/-- Before the first republish nothing has been handed over; after it, the last snapshot
    handed over is of the watcher's list. -/
structure WatchInv (s : Watch) : Prop where
  before : s.watcher.firstRun = true → snapshotsOf s.trace = []
  after : s.watcher.firstRun = false → lastAttempted s.trace = some s.watcher.list

theorem WatchInv.of_republish (h : Host κ) (cfg : Config) (l : NpLeases) (w : World κ) :
    WatchInv { watcher := (npLeasesRepublish h cfg l w).1
               trace := (npLeasesRepublish h cfg l w).2.trace } := by
  obtain ⟨ok, hs, _⟩ := npLeasesRepublish_snapshots h cfg l w
  refine ⟨fun hf => ?_, fun _ => lastAttempted_concat hs⟩
  rw [npLeasesRepublish_firstRun] at hf
  cases hf

/-- The step lemma. -/
theorem call_inv (cfg : Config) {s : Watch} (hi : WatchInv s) (c : Call κ) :
    WatchInv (s.call cfg c) := by
  cases c with
  | poll h k =>
    rcases npLeasesPoll_cases h cfg s.watcher { host := k, trace := s.trace } with
      ⟨_, l', _, _, heq⟩ | ⟨_, heq⟩
    · rw [Watch.call, heq]
      exact WatchInv.of_republish h cfg l' _
    · rw [Watch.call, heq]
      exact hi
  | republish h k => exact WatchInv.of_republish h cfg s.watcher _

/-- The run lemma. -/
theorem watch_inv (cfg : Config) (path : Option Str) (calls : List (Call κ)) :
    WatchInv (watch cfg path calls) := by
  unfold watch
  suffices hgen : ∀ s : Watch, WatchInv s → WatchInv (calls.foldl (Watch.call cfg) s) from
    hgen _ ⟨fun _ => rfl, fun hf => absurd hf (by simp [npLeasesCreate])⟩
  induction calls with
  | nil => exact fun s hi => hi
  | cons c cs ih => exact fun s hi => ih _ (call_inv cfg hi c)

/-- At the end of a poll during which publishing works, the last delivered snapshot is of the
    watcher's list exactly when the poll had a reason to republish, or nothing dropped was
    outstanding: the last snapshot handed over was delivered, or one with the same list was. -/
theorem poll_delivers_iff (cfg : Config) (path : Option Str) (calls : List (Call κ)) (h : Host κ)
    (k : κ) (hc : Connected h) :
    lastDelivered (watch cfg path (calls ++ [.poll h k])).trace =
        some (watch cfg path (calls ++ [.poll h k])).watcher.list ↔
      Republishes (watch cfg path calls).watcher (h.stat (watch cfg path calls).watcher.path k) ∨
        lastDelivered (watch cfg path calls).trace = lastAttempted (watch cfg path calls).trace := by
  have hinv := watch_inv cfg path calls
  have hstep : watch cfg path (calls ++ [.poll h k]) = (watch cfg path calls).call cfg (.poll h k) := by
    rw [watch, List.foldl_append]
    rfl
  rw [hstep]
  generalize watch cfg path calls = s at hinv ⊢
  rcases npLeasesPoll_cases h cfg s.watcher { host := k, trace := s.trace } with
    ⟨hrep, l', _, _, heq⟩ | ⟨hno, heq⟩
  · obtain ⟨ok, hs, hok⟩ := npLeasesRepublish_snapshots h cfg l' { host := k, trace := s.trace }
    rw [hok hc] at hs
    rw [Watch.call, heq]
    exact iff_of_true (lastDelivered_concat hs) (Or.inl hrep)
  · rw [Watch.call, heq]
    have hafter : s.watcher.firstRun = false := by
      cases hf : s.watcher.firstRun with
      | false => rfl
      | true => exact absurd (Or.inl hf) hno
    rw [← hinv.after hafter]
    exact ⟨Or.inr, fun hor => hor.resolve_left hno⟩

/-- A machine with this lease file; `ok` says whether publishing works. -/
def leaseHost (ok : Bool) (content : Str) (mtime : Int) : Host Unit :=
  { listingHost [] (some content) with
    stat := fun _ _ => some ⟨mtime, content.length⟩
    publish := fun _ _ _ k => (ok, k) }

def leasedUntil100 : Str := "100 02:00:00:00:00:01 10.0.0.2 tv *\n".toList
def leasedUntil200 : Str := "200 02:00:00:00:00:01 10.0.0.2 tv *\n".toList

/-- A lease, its renewal while publishing fails, and another write: the poll behind that delivers. -/
theorem poll_delivers_renewed :
    lastDelivered (watch defaultConfig none
      [.poll (leaseHost true leasedUntil100 50) (), .poll (leaseHost false leasedUntil200 60) (),
        .poll (leaseHost true leasedUntil200 70) ()]).trace =
    some (watch defaultConfig none
      [.poll (leaseHost true leasedUntil100 50) (), .poll (leaseHost false leasedUntil200 60) (),
        .poll (leaseHost true leasedUntil200 70) ()]).watcher.list :=
  (poll_delivers_iff defaultConfig none
    [.poll (leaseHost true leasedUntil100 50) (), .poll (leaseHost false leasedUntil200 60) ()]
    (leaseHost true leasedUntil200 70) () fun _ _ _ _ => rfl).mpr (Or.inl (Or.inr (by decide +kernel)))

/-- Its lease file is empty and does not change. -/
def steadyHost (ok : Bool) : Host Unit := leaseHost ok [] 100

/-- The first snapshot is dropped, and the next poll, with publishing up again and the file as
    it was, delivers nothing. -/
theorem dropped_snapshot_not_delivered : Connected (steadyHost true) ∧
    lastDelivered (watch defaultConfig none
      [.poll (steadyHost false) (), .poll (steadyHost true) ()]).trace ≠
    some (watch defaultConfig none
      [.poll (steadyHost false) (), .poll (steadyHost true) ()]).watcher.list := by
  refine ⟨fun _ _ _ _ => rfl, ?_⟩
  have hnone : lastDelivered (watch defaultConfig none
      [.poll (steadyHost false) (), .poll (steadyHost true) ()]).trace = none := by
    decide +kernel
  rw [hnone]
  simp

/-! ## Changes of the file -/

/-- The machine with this lease file. -/
def Host.withFile (h : Host κ) (content : Str) (mtime : Int) : Host κ :=
  { h with
    fopen := fun _ _ => some content
    stat := fun _ _ => some ⟨mtime, content.length⟩ }

/-- A file, a clock in whole seconds, and the watcher. -/
structure Box where
  content : Str
  mtime : Int
  clock : Int
  watcher : NpLeases
  trace : List Act

/-- What happens: time passes, the file is written, the watcher polls or is told to
    republish. -/
inductive Op (κ : Type) where
  | tick (seconds : Nat)
  | write (content : Str)
  | poll (h : Host κ) (k : κ)
  | republish (h : Host κ) (k : κ)

def Box.step (cfg : Config) (s : Box) : Op κ → Box
  | .tick seconds => { s with clock := s.clock + seconds }
  | .write content => { s with content := content, mtime := s.clock }
  | .poll h k =>
      let r := npLeasesPoll (h.withFile s.content s.mtime) cfg s.watcher { host := k, trace := s.trace }
      { s with watcher := r.1, trace := r.2.trace }
  | .republish h k =>
      let r := npLeasesRepublish (h.withFile s.content s.mtime) cfg s.watcher
        { host := k, trace := s.trace }
      { s with watcher := r.1, trace := r.2.trace }

def Box.run (cfg : Config) (s : Box) (ops : List (Op κ)) : Box := ops.foldl (Box.step cfg) s

/-- A new watcher, and a file as it was found. -/
def Box.start (path : Option Str) (content : Str) (mtime clock : Int) : Box :=
  { content := content, mtime := mtime, clock := clock, watcher := npLeasesCreate path, trace := [] }

theorem Box.run_append (cfg : Config) (s : Box) (a b : List (Op κ)) :
    s.run cfg (a ++ b) = (s.run cfg a).run cfg b :=
  List.foldl_append

/-- The last snapshot was built from the content the file has now. -/
def Current (s : Box) : Prop := publishedFrom s.trace = some (some s.content)

/-- The next poll leaves a current snapshot. -/
def Fresh (s : Box) : Prop :=
  Republishes s.watcher (some ⟨s.mtime, s.content.length⟩) ∨ Current s

/-- A write that the next poll notices, or need not notice: the watcher has not run yet, the second or
    the size differs from what it recorded, or the last snapshot was built from this content. -/
def Noticeable (s : Box) (content : Str) : Prop :=
  s.watcher.firstRun = true ∨ s.clock ≠ s.watcher.lastMtime ∨
    (content.length : Int) ≠ s.watcher.lastSize ∨ publishedFrom s.trace = some (some content)

/-- Every write of the run is noticeable when it happens. -/
def WritesNoticeable (cfg : Config) (s : Box) (ops : List (Op κ)) : Prop :=
  ∀ before content after, ops = before ++ .write content :: after →
    Noticeable (s.run cfg before) content

theorem fresh_write_iff (cfg : Config) (s : Box) (content : Str) :
    Fresh (s.step cfg (.write content : Op κ)) ↔ Noticeable s content := by
  change (s.watcher.firstRun = true ∨ fileChanged s.watcher (some ⟨s.clock, content.length⟩) = true) ∨
    publishedFrom s.trace = some (some content) ↔ _
  rw [fileChanged_some, or_assoc, or_assoc]
  rfl

/-- What a poll does: the snapshot is current afterwards exactly when it was due. -/
theorem current_poll_iff (cfg : Config) (s : Box) (h : Host κ) (k : κ) :
    Current (s.step cfg (.poll h k)) ↔ Fresh s := by
  unfold Box.step Current Fresh
  rcases npLeasesPoll_cases (h.withFile s.content s.mtime) cfg s.watcher
    { host := k, trace := s.trace } with ⟨hrep, l', _, _, heq⟩ | ⟨hno, heq⟩
  · dsimp only
    rw [heq]
    exact iff_of_true (npLeasesRepublish_publishedFrom _ cfg l' _) (Or.inl hrep)
  · dsimp only
    rw [heq]
    exact ⟨Or.inr, fun hor => hor.resolve_left hno⟩

theorem current_republish (cfg : Config) (s : Box) (h : Host κ) (k : κ) :
    Current (s.step cfg (.republish h k)) :=
  npLeasesRepublish_publishedFrom _ cfg s.watcher _

/-- The run lemma: as long as every write is noticeable, the next poll leaves a current
    snapshot. -/
theorem fresh_run (cfg : Config) {s : Box} (hs : Fresh s) {ops : List (Op κ)}
    (hw : WritesNoticeable cfg s ops) : Fresh (s.run cfg ops) := by
  induction ops generalizing s with
  | nil => exact hs
  | cons op ops ih =>
    have hrest : WritesNoticeable cfg (s.step cfg op) ops := fun before content after he =>
      hw (op :: before) content after (by rw [he]; rfl)
    refine ih ?_ hrest
    cases op with
    | tick seconds => exact hs
    | write content => exact (fresh_write_iff cfg s content).mpr (hw [] content ops rfl)
    | poll h k => exact Or.inr ((current_poll_iff cfg s h k).mpr hs)
    | republish h k => exact Or.inr (current_republish cfg s h k)

/-- **Polls and writes.** In a run all of whose writes are noticeable, every poll leaves a
    snapshot of the file as it is. And a write that is not, followed by a poll, leaves a snapshot of
    something else. -/
theorem polls_current (cfg : Config) (path : Option Str) (content : Str) (mtime clock : Int)
    (ops : List (Op κ)) :
    (WritesNoticeable cfg (Box.start path content mtime clock) ops →
      ∀ before h k after, ops = before ++ .poll h k :: after →
        Current ((Box.start path content mtime clock).run cfg (before ++ [.poll h k]))) ∧
    ∀ content' h k,
      Current ((Box.start path content mtime clock).run cfg (ops ++ [.write content', .poll h k])) ↔
        Noticeable ((Box.start path content mtime clock).run cfg ops) content' := by
  constructor
  · intro hw before h k after he
    rw [Box.run_append]
    refine (current_poll_iff cfg _ h k).mpr (fresh_run cfg (Or.inl (Or.inl rfl)) ?_)
    intro before' content' after' he'
    refine hw before' content' (after' ++ .poll h k :: after) ?_
    rw [he, he', List.append_assoc]
    rfl
  · intro content' h k
    rw [Box.run_append, ← fresh_write_iff (κ := κ) cfg]
    exact current_poll_iff cfg _ h k

/-- A poll, a lease renewed a second later, and the next poll: its snapshot has the renewed lease. -/
theorem polls_current_renewed : Current ((Box.start none leasedUntil100 100 100).run defaultConfig
    [.poll (listingHost [] none) (), .tick 1, .write leasedUntil200, .poll (listingHost [] none) ()]) := by
  refine (polls_current defaultConfig none leasedUntil100 100 100
    [.poll (listingHost [] none) (), .tick 1, .write leasedUntil200, .poll (listingHost [] none) ()]).1
    (fun before content after he => ?_) [_, _, _] _ () [] rfl
  -- the only write comes after the poll and the tick
  rcases before with _ | ⟨op₁, _ | ⟨op₂, _ | ⟨op₃, _ | ⟨op₄, before⟩⟩⟩⟩
  · cases he
  · cases he
  · cases he
    exact Or.inr (Or.inl (by decide +kernel))
  · cases he
  · have hlen := congrArg List.length he
    simp only [List.length_append, List.length_cons, List.length_nil] at hlen
    omega

/-- A lease renewed within the second of the last poll: the next poll does not see it. -/
theorem renewal_missed : ¬ Current ((Box.start none leasedUntil100 100 100).run defaultConfig
    [.poll (listingHost [] none) (), .write leasedUntil200, .poll (listingHost [] none) ()]) := by
  have hsplit : ([.poll (listingHost [] none) (), .write leasedUntil200,
      .poll (listingHost [] none) ()] : List (Op Unit)) =
      [.poll (listingHost [] none) ()] ++ [.write leasedUntil200, .poll (listingHost [] none) ()] := rfl
  rw [hsplit, Box.run_append]
  intro hcurrent
  have hnoticed := (fresh_write_iff (κ := Unit) defaultConfig _ _).mp
    ((current_poll_iff defaultConfig _ _ _).mp hcurrent)
  revert hnoticed
  unfold Noticeable
  decide +kernel

end Netparent
