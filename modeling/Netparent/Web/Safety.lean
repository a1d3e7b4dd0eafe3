/-
  Which messages take the web app down.

  The one way is a nil device in a snapshot: `handleDeviceEvent` asks whether the device is
  nil, `handleDevices` leaves that to `ReplaceDevices`, which follows it. Every other message is
  handled, and a message without a router id or with a payload that does not decode leaves the
  store as it was (`survives_iff`). No nil device ever gets into the store (`reachable_noNil`), so
  reading a router is safe in every store the handlers reach.
-/
import Netparent.Lib.JsonText
import Netparent.Web.Bus

namespace Netparent.Web

variable {parse : Str → Option Json}

/-! ## Nil devices in a map -/

theorem hasNil_iff {m : Devices} : HasNil m ↔ ∃ k, m.lookup k = some none := by
  constructor
  · rintro ⟨k, _, hk⟩
    exact ⟨k, hk⟩
  · rintro ⟨k, hk⟩
    exact ⟨k, Finmap.mem_keys.mpr (Finmap.mem_of_lookup_eq_some hk), hk⟩

theorem not_hasNil_insert {m : Devices} (hm : ¬ HasNil m) (k : Str) (d : Device) :
    ¬ HasNil (m.insert k (some d)) := by
  rw [hasNil_iff] at hm ⊢
  rintro ⟨k', hk'⟩
  by_cases heq : k' = k
  · subst heq
    rw [Finmap.lookup_insert] at hk'
    cases hk'
  · rw [Finmap.lookup_insert_of_ne _ heq] at hk'
    exact hm ⟨k', hk'⟩

theorem not_hasNil_erase {m : Devices} (hm : ¬ HasNil m) (k : Str) : ¬ HasNil (m.erase k) := by
  rw [hasNil_iff] at hm ⊢
  rintro ⟨k', hk'⟩
  by_cases heq : k' = k
  · subst heq
    rw [Finmap.lookup_erase] at hk'
    cases hk'
  · rw [Finmap.lookup_erase_ne heq] at hk'
    exact hm ⟨k', hk'⟩

theorem not_hasNil_empty : ¬ HasNil ∅ := by
  rw [hasNil_iff]
  rintro ⟨k, hk⟩
  rw [Finmap.lookup_empty] at hk
  cases hk

/-- The loop of `ReplaceDevices` stops at a nil device, and puts none into the map. -/
theorem setDevices_cases (ds : List (Option Device)) (m : Devices) (hm : ¬ HasNil m) :
    none ∈ ds ∧ setDevices ds m = .error .nilDeref ∨
      none ∉ ds ∧ ∃ m', setDevices ds m = .ok m' ∧ ¬ HasNil m' := by
  induction ds generalizing m with
  | nil => exact Or.inr ⟨List.not_mem_nil, m, rfl, hm⟩
  | cons d ds ih =>
    cases d with
    | none => exact Or.inl ⟨List.mem_cons_self, rfl⟩
    | some d =>
      rcases ih (m.insert d.mac (some d)) (not_hasNil_insert hm d.mac d) with
        ⟨hmem, herr⟩ | ⟨hmem, m', hok, hm'⟩
      · exact Or.inl ⟨List.mem_cons_of_mem _ hmem, herr⟩
      · exact Or.inr ⟨by simpa using hmem, m', hok, hm'⟩

/-! ## Nil devices in a store -/

/-- No router of the store has a nil device. -/
def NoNil (s : Store) : Prop := ∀ id r, s.lookup id = some r → ¬ HasNil r.devices

theorem NoNil.empty : NoNil ∅ := fun id r hr => by
  rw [Finmap.lookup_empty] at hr
  cases hr

theorem NoNil.getOrCreate {s : Store} (hs : NoNil s) (id : Str) :
    ¬ HasNil (s.getOrCreate id).devices := by
  unfold Store.getOrCreate
  cases hr : s.lookup id with
  | none => exact not_hasNil_empty
  | some r => exact hs id r hr

theorem NoNil.insert {s : Store} (hs : NoNil s) (id : Str) {r : Router} (hr : ¬ HasNil r.devices) :
    NoNil (s.insert id r) := by
  intro id' r' hr'
  by_cases heq : id' = id
  · subst heq
    rw [Finmap.lookup_insert] at hr'
    exact Option.some.inj hr' ▸ hr
  · rw [Finmap.lookup_insert_of_ne _ heq] at hr'
    exact hs id' r' hr'

/-- `Router()` reads every router of such a store. -/
theorem NoNil.router {s : Store} (hs : NoNil s) (id : Str) : ∃ r, s.router id = .ok r := by
  unfold Store.router
  cases hr : s.lookup id with
  | none => exact ⟨none, rfl⟩
  | some r => exact ⟨some r, if_neg (hs id r hr)⟩

/-- `UpsertDevice` behind the nil check of `handleDeviceEvent`. -/
theorem NoNil.upsertDevice {s : Store} (hs : NoNil s) (id : Str) (d : Device) (now : Int) :
    ∃ s', s.upsertDevice id (some d) now = .ok s' ∧ NoNil s' :=
  ⟨_, rfl, hs.insert id (not_hasNil_insert (hs.getOrCreate id) d.mac d)⟩

theorem NoNil.removeDevice {s : Store} (hs : NoNil s) (id mac : Str) (now : Int) :
    NoNil (s.removeDevice id mac now) := by
  cases hr : s.lookup id with
  | none =>
    rw [Store.removeDevice_none hr]
    exact hs
  | some r =>
    rw [Store.removeDevice_some hr]
    exact hs.insert id (not_hasNil_erase (hs id r hr) mac)

/-- `ReplaceDevices` has no such check. -/
theorem NoNil.replaceDevices {s : Store} (hs : NoNil s) (id : Str) (updatedAt : Int)
    (ds : List (Option Device)) (now : Int) :
    none ∈ ds ∧ s.replaceDevices id updatedAt ds now = .error .nilDeref ∨
      none ∉ ds ∧ ∃ s', s.replaceDevices id updatedAt ds now = .ok s' ∧ NoNil s' := by
  unfold Store.replaceDevices
  rcases setDevices_cases ds ∅ not_hasNil_empty with ⟨hmem, herr⟩ | ⟨hmem, m', hok, hm'⟩
  · rw [herr]
    exact Or.inl ⟨hmem, rfl⟩
  · rw [hok]
    exact Or.inr ⟨hmem, _, rfl, hs.insert id hm'⟩

/-! ## Handlers -/

/-- The payload decodes into the struct of the handler. -/
def decodes (parse : Str → Option Json) (payload : Str) : Sub → Bool
  | .status => (unmarshalStatus parse payload).isSome
  | .devices => (unmarshalDevices parse payload).isSome
  | .event => (unmarshalEvent parse payload).isSome

/-- A snapshot with a nil device in it. -/
def NilInSnapshot (parse : Str → Option Json) (sub : Sub) (topic payload : Str) : Prop :=
  sub = .devices ∧ routerIDFromTopic topic ≠ [] ∧
    ∃ p, unmarshalDevices parse payload = some p ∧ none ∈ p.devices

/-- A message that is not for a router, or does not decode, is dropped. -/
theorem handle_dropped {sub : Sub} {topic payload : Str} (now : Int) (s : Store)
    (hd : routerIDFromTopic topic = [] ∨ decodes parse payload sub = false) :
    handle parse sub topic payload now s = .ok s := by
  have isSome_false : ∀ {α : Type} {o : Option α}, o.isSome = false → o = none := fun ho =>
    Option.isNone_iff_eq_none.mp (Option.isSome_eq_false_iff.mp ho)
  cases sub with
  | status =>
    unfold handle handleStatus
    dsimp only
    split
    · rfl
    · next hid => rw [isSome_false (hd.resolve_left hid)]
  | devices =>
    unfold handle handleDevices
    dsimp only
    split
    · rfl
    · next hid => rw [isSome_false (hd.resolve_left hid)]
  | event =>
    unfold handle handleDeviceEvent
    dsimp only
    split
    · rfl
    · next hid => rw [isSome_false (hd.resolve_left hid)]

theorem handleDeviceEvent_noNil {s : Store} (hs : NoNil s) (topic payload : Str) (now : Int) :
    ∃ s', handleDeviceEvent parse topic payload now s = .ok s' ∧ NoNil s' := by
  unfold handleDeviceEvent
  dsimp only
  split
  · exact ⟨s, rfl, hs⟩
  · split
    · exact ⟨s, rfl, hs⟩
    · next p hp =>
      split
      · cases hdev : p.device with
        | none => exact ⟨s, if_neg (not_not.mpr rfl), hs⟩
        | some d =>
          rw [if_pos (by simp)]
          exact hs.upsertDevice _ d now
      · split
        · split
          · exact ⟨_, rfl, hs.removeDevice _ _ now⟩
          · exact ⟨s, rfl, hs⟩
        · exact ⟨s, rfl, hs⟩

/-- The step lemma: a message faults on a nil device in a snapshot, and otherwise is handled and
    leaves no nil device. -/
theorem handle_cases (parse : Str → Option Json) {s : Store} (hs : NoNil s) (sub : Sub)
    (topic payload : Str) (now : Int) :
    NilInSnapshot parse sub topic payload ∧
        handle parse sub topic payload now s = .error .nilDeref ∨
      ¬ NilInSnapshot parse sub topic payload ∧
        ∃ s', handle parse sub topic payload now s = .ok s' ∧ NoNil s' := by
  cases sub with
  | status =>
    refine Or.inr ⟨fun hn => (nomatch hn.1), ?_⟩
    unfold handle handleStatus
    dsimp only
    split
    · exact ⟨s, rfl, hs⟩
    · split
      · exact ⟨s, rfl, hs⟩
      · exact ⟨_, rfl, hs.insert _ (hs.getOrCreate _)⟩
  | devices =>
    unfold handle handleDevices
    dsimp only
    by_cases hid : routerIDFromTopic topic = []
    · rw [if_pos hid]
      exact Or.inr ⟨fun hn => hn.2.1 hid, s, rfl, hs⟩
    · rw [if_neg hid]
      cases hp : unmarshalDevices parse payload with
      | none =>
        refine Or.inr ⟨fun hn => ?_, s, rfl, hs⟩
        obtain ⟨p, hp', _⟩ := hn.2.2
        rw [hp] at hp'
        cases hp'
      | some p =>
        rcases hs.replaceDevices (routerIDFromTopic topic) p.updatedAt p.devices now with
          ⟨hmem, herr⟩ | ⟨hmem, hok⟩
        · exact Or.inl ⟨⟨rfl, hid, p, hp, hmem⟩, herr⟩
        · refine Or.inr ⟨fun hn => ?_, hok⟩
          obtain ⟨p', hp', hmem'⟩ := hn.2.2
          rw [hp] at hp'
          exact hmem (Option.some.inj hp' ▸ hmem')
  | event => exact Or.inr ⟨fun hn => (nomatch hn.1), handleDeviceEvent_noNil hs topic payload now⟩

/-! ## Reachable stores -/

/-- The stores the handlers reach from an empty one. -/
inductive Reachable (parse : Str → Option Json) : Store → Prop
  | empty : Reachable parse ∅
  | step {s s' : Store} {sub : Sub} {topic payload : Str} {now : Int} : Reachable parse s →
      handle parse sub topic payload now s = .ok s' → Reachable parse s'

/-- The run lemma. -/
theorem reachable_noNil {s : Store} (hr : Reachable parse s) : NoNil s := by
  induction hr with
  | empty => exact NoNil.empty
  | @step s s' sub topic payload now _ hstep ih =>
    rcases handle_cases parse ih sub topic payload now with ⟨_, herr⟩ | ⟨_, s₁, hok, hs₁⟩
    · rw [hstep] at herr
      cases herr
    · rw [hstep] at hok
      exact Except.ok.inj hok ▸ hs₁

/-- The message does not take the app down: its handler returns, every router can be read
    afterwards, and a message to be dropped changes nothing. -/
structure Survives (parse : Str → Option Json) (s : Store) (sub : Sub) (topic payload : Str)
    (now : Int) : Prop where
  returns : ∃ s', handle parse sub topic payload now s = .ok s' ∧ ∀ id, ∃ r, s'.router id = .ok r
  dropped : routerIDFromTopic topic = [] ∨ decodes parse payload sub = false →
    handle parse sub topic payload now s = .ok s

/-- **What takes the app down.** In every reachable store, a message is survived exactly when
    it is not a snapshot with a nil device. -/
theorem survives_iff {s : Store} (hr : Reachable parse s) (sub : Sub) (topic payload : Str)
    (now : Int) :
    Survives parse s sub topic payload now ↔ ¬ NilInSnapshot parse sub topic payload := by
  constructor
  · intro hsurv hnil
    obtain ⟨s', hok, _⟩ := hsurv.returns
    rcases handle_cases parse (reachable_noNil hr) sub topic payload now with
      ⟨_, herr⟩ | ⟨hno, _⟩
    · rw [hok] at herr
      cases herr
    · exact hno hnil
  · intro hno
    rcases handle_cases parse (reachable_noNil hr) sub topic payload now with
      ⟨hnil, _⟩ | ⟨_, s', hok, hs'⟩
    · exact absurd hnil hno
    · exact ⟨⟨s', hok, hs'.router⟩, handle_dropped now s⟩

def tvAdded : Str :=
  "\x7b\"event\":\"added\",\"device\":\x7b\"mac\":\"02:00:00:00:00:01\",\"hostname\":\"tv\"\x7d\x7d".toList

theorem read_tvAdded : Json.read tvAdded = some (.obj [("event".toList, .str "added".toList),
    ("device".toList, .obj [("mac".toList, .str "02:00:00:00:00:01".toList),
      ("hostname".toList, .str "tv".toList)])]) :=
  Json.read_of_print rfl (by decide +kernel)

/-- An event with a null device, once the store has one. -/
theorem survives_event_null : ∃ s,
    handle Json.read .event "netparent/r/event/device".toList tvAdded 1 ∅ = .ok s ∧ "r".toList ∈ s ∧
    Survives Json.read s .event "netparent/r/event/device".toList
      "\x7b\"event\":\"changed\",\"device\":null\x7d".toList 2 := by
  obtain ⟨s, hs, hmem⟩ : ∃ s, handle Json.read .event "netparent/r/event/device".toList tvAdded 1 ∅ =
      .ok s ∧ "r".toList ∈ s := by
    simp only [handle, handleDeviceEvent, unmarshalEvent, read_tvAdded]
    exact ⟨_, rfl, Finmap.mem_insert.mpr (Or.inl rfl)⟩
  exact ⟨s, hs, hmem, (survives_iff (.step .empty hs) _ _ _ _).mpr fun hn => absurd hn.1 (by decide)⟩

/-- A snapshot with a null device. -/
theorem snapshot_null_faults : ¬ Survives Json.read ∅ .devices "netparent/r/devices".toList
    "\x7b\"devices\":[null]\x7d".toList 0 := by
  have hread : Json.read "\x7b\"devices\":[null]\x7d".toList =
      some (.obj [("devices".toList, .arr [.null])]) := Json.read_of_print rfl (by decide +kernel)
  intro hsurv
  obtain ⟨s', hok, _⟩ := hsurv.returns
  simp only [handle, handleDevices, unmarshalDevices, hread] at hok
  cases hok

end Netparent.Web
