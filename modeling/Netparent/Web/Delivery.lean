/-
  The daemon's messages at the web app's handlers.

  `deviceOf` is the device the web app decodes from the object the daemon publishes, and
  `Store.take` the store operation a message asks for. `handle_message`: a handler that is
  given the document of a message, on a topic with a router id, does that operation if the
  message's numbers fit an int64 (`Msg.Fits`), and otherwise nothing. For the daemon's own topics
  the router id is the device id when that survives in a topic (`Routable`, `topic_routes`).
-/
import Netparent.World
import Netparent.Lib.JsonText
import Netparent.Web.Bus

namespace Netparent

/-- Both numbers of a device, after the double, go into an int64. -/
def Dev.Fits (d : Dev) : Prop :=
  Json.FitsInt64 (toDouble d.leaseExpires) ∧ Json.FitsInt64 (toDouble d.lastSeen)

instance (d : Dev) : Decidable d.Fits := inferInstanceAs (Decidable (_ ∧ _))

/-- All numbers of a message do. -/
def Msg.Fits : Msg → Prop
  | .status _ => True
  | .devices updatedAt list => Json.FitsInt64 (toDouble updatedAt) ∧ ∀ d ∈ list, d.Fits
  | .event (.added d) => d.Fits
  | .event (.changed d) => d.Fits
  | .event (.removed _) => True
  | .response .. => True

instance : DecidablePred Msg.Fits
  | .status _ => .isTrue trivial
  | .devices updatedAt list =>
      inferInstanceAs (Decidable (Json.FitsInt64 (toDouble updatedAt) ∧ ∀ d ∈ list, d.Fits))
  | .event (.added d) => inferInstanceAs (Decidable d.Fits)
  | .event (.changed d) => inferInstanceAs (Decidable d.Fits)
  | .event (.removed _) => .isTrue trivial
  | .response .. => .isTrue trivial

/-- A device id that is one level of a topic and fits the topic buffers. -/
structure Config.Routable (cfg : Config) : Prop where
  nonempty : cfg.deviceId ≠ []
  oneLevel : '/' ∉ cfg.deviceId
  short : cfg.deviceId.length ≤ 109

namespace Web

/-! ## Devices -/

/-- The device decoded from `dev_to_json`'s object. -/
def deviceOf (d : Dev) : Device :=
  { mac := d.mac, ip := d.ip, hostname := d.hostname, blocked := d.blocked
    leaseExpires := toDouble d.leaseExpires, lastSeen := toDouble d.lastSeen }

/-- The two number fields come last, after four that always decode. -/
theorem decode_devToJson (d : Dev) :
    Device.decode {} (devToJson d) = if d.Fits then some (deviceOf d) else none := by
  have hset5 : ∀ x j, Device.set x "lease_expires".toList j =
      (Json.decodeInt64 x.leaseExpires j).map fun v => { x with leaseExpires := v } := fun _ _ => rfl
  have hset6 : ∀ x j, Device.set x "last_seen".toList j =
      (Json.decodeInt64 x.lastSeen j).map fun v => { x with lastSeen := v } := fun _ _ => rfl
  have hset : ∀ ms, Json.decodeMembers Device.set {}
      (("mac".toList, .str d.mac) :: ("ip".toList, .str d.ip) ::
        ("hostname".toList, .str d.hostname) :: ("blocked".toList, .bool d.blocked) :: ms) =
      Json.decodeMembers Device.set
        { mac := d.mac, ip := d.ip, hostname := d.hostname, blocked := d.blocked } ms := fun _ => rfl
  rw [Device.decode, devToJson, Json.decodeStruct, hset, Json.decodeMembers, hset5, Json.decodeInt64]
  by_cases hexp : Json.FitsInt64 (toDouble d.leaseExpires)
  · rw [if_pos hexp, Option.map_some, Option.bind_some, Json.decodeMembers, hset6, Json.decodeInt64]
    by_cases hseen : Json.FitsInt64 (toDouble d.lastSeen)
    · rw [if_pos hseen, if_pos ⟨hexp, hseen⟩]
      rfl
    · rw [if_neg hseen, if_neg fun hd => hseen hd.2]
      rfl
  · rw [if_neg hexp, if_neg fun hd => hexp hd.1]
    rfl

theorem decodeDevicePtr_devToJson (d : Dev) :
    decodeDevicePtr none (devToJson d) = if d.Fits then some (some (deviceOf d)) else none := by
  have hptr : decodeDevicePtr none (devToJson d) = (Device.decode {} (devToJson d)).map some := rfl
  rw [hptr, decode_devToJson]
  split <;> rfl

/-! ## Device maps -/

/-- The map of a snapshot: `ReplaceDevices` of its devices. -/
def snapshotMap (list : List Dev) : Devices :=
  list.foldl (fun m d => m.insert d.mac (some (deviceOf d))) ∅

theorem setDevices_snapshot (list : List Dev) (m : Devices) :
    setDevices (list.map fun d => some (deviceOf d)) m =
      .ok (list.foldl (fun m d => m.insert d.mac (some (deviceOf d))) m) := by
  induction list generalizing m with
  | nil => rfl
  | cons d ds ih => exact ih _

theorem lookup_foldl_insert {list : List Dev} (hn : (list.map Dev.mac).Nodup) (m : Devices)
    (k : Str) :
    (list.foldl (fun m d => m.insert d.mac (some (deviceOf d))) m).lookup k =
      ((Keyed.find? Dev.mac k list).map fun d => some (deviceOf d)).or (m.lookup k) := by
  induction list generalizing m with
  | nil => rfl
  | cons d ds ih =>
    rw [List.map_cons, List.nodup_cons] at hn
    rw [List.foldl_cons, ih hn.2, Keyed.find?_cons]
    by_cases hk : d.mac = k
    · subst hk
      rw [Keyed.find?_eq_none.mpr hn.1, if_pos rfl, Finmap.lookup_insert]
      rfl
    · rw [if_neg hk, Finmap.lookup_insert_of_ne _ (Ne.symm hk)]

theorem lookup_snapshotMap {list : List Dev} (hn : (list.map Dev.mac).Nodup) (k : Str) :
    (snapshotMap list).lookup k =
      (Keyed.find? Dev.mac k list).map fun d => some (deviceOf d) := by
  rw [snapshotMap, lookup_foldl_insert hn, Finmap.lookup_empty, Option.or_none]

/-- What an event does to a device map. -/
def patchMap (m : Devices) : Event → Devices
  | .added d => m.insert d.mac (some (deviceOf d))
  | .changed d => m.insert d.mac (some (deviceOf d))
  | .removed mac => m.erase mac

/-- A device without the time it was last seen. -/
def Device.seenless (d : Device) : Device := { d with lastSeen := 0 }

/-- Two device maps agree in every field except `last_seen`. -/
def SameDevices (m m' : Devices) : Prop :=
  ∀ k, (m.lookup k).map (Option.map Device.seenless) = (m'.lookup k).map (Option.map Device.seenless)

/-! ## The store -/

namespace Store

/-- The store operation an event asks for. -/
def applyEvent (s : Store) (id : Str) (now : Int) : Event → Except Fault Store
  | .added d => s.upsertDevice id (some (deviceOf d)) now
  | .changed d => s.upsertDevice id (some (deviceOf d)) now
  | .removed mac => .ok (s.removeDevice id mac now)

/-- Events handled one after the other, each at its own time. -/
def applyEvents (s : Store) (id : Str) : List (Event × Int) → Except Fault Store
  | [] => .ok s
  | (e, now) :: es => match s.applyEvent id now e with
      | .error err => .error err
      | .ok s' => applyEvents s' id es

/-- The store operation a message of the daemon asks for. -/
def take (s : Store) (id : Str) (now : Int) : Msg → Except Fault Store
  | .status online => .ok (s.setOnline id online now)
  | .devices updatedAt list =>
      s.replaceDevices id (toDouble updatedAt) (list.map fun d => some (deviceOf d)) now
  | .event e => s.applyEvent id now e
  | .response .. => .ok s

theorem getOrCreate_insert (s : Store) (id : Str) (r : Router) :
    getOrCreate (s.insert id r) id = r := by
  rw [getOrCreate, Finmap.lookup_insert]
  rfl

/-- What handling a message of router `id` does: it sets the online flag or the device map of
    that router and leaves every other router alone. -/
structure Took (s s' : Store) (id : Str) (online : Bool) (devices : Devices) : Prop where
  online : s'.onlineOf id = online
  devices : s'.devicesOf id = devices
  others : ∀ id', id' ≠ id → s'.lookup id' = s.lookup id'

theorem took_insert (s : Store) (id : Str) (r : Router) :
    Took s (s.insert id r) id r.online r.devices where
  online := congrArg Router.online (getOrCreate_insert s id r)
  devices := congrArg Router.devices (getOrCreate_insert s id r)
  others _ h := Finmap.lookup_insert_of_ne s h

theorem setOnline_took (s : Store) (id : Str) (online : Bool) (now : Int) :
    Took s (s.setOnline id online now) id online (s.devicesOf id) :=
  took_insert s id _

theorem applyEvent_took (s : Store) (id : Str) (now : Int) (e : Event) :
    ∃ s', s.applyEvent id now e = .ok s' ∧
      Took s s' id (s.onlineOf id) (patchMap (s.devicesOf id) e) := by
  cases e with
  | added d => exact ⟨_, rfl, took_insert s id _⟩
  | changed d => exact ⟨_, rfl, took_insert s id _⟩
  | removed mac =>
    refine ⟨_, rfl, ?_⟩
    cases hr : s.lookup id with
    | none =>
      rw [removeDevice_none hr]
      refine ⟨rfl, ?_, fun _ _ => rfl⟩
      rw [devicesOf_none hr]
      rfl
    | some r =>
      rw [removeDevice_some hr, onlineOf, getOrCreate_some hr, devicesOf_some hr]
      exact took_insert s id { r with devices := r.devices.erase mac, lastUpdate := now }

theorem replaceDevices_took (s : Store) (id : Str) (updatedAt : Int) (list : List Dev) (now : Int) :
    ∃ s', s.replaceDevices id updatedAt (list.map fun d => some (deviceOf d)) now = .ok s' ∧
      Took s s' id (s.onlineOf id) (snapshotMap list) := by
  unfold replaceDevices
  rw [setDevices_snapshot]
  exact ⟨_, rfl, took_insert s id _⟩

/-- Events leave the map they patch to. -/
theorem applyEvents_took (es : List (Event × Int)) (s : Store) (id : Str) :
    ∃ s', s.applyEvents id es = .ok s' ∧
      Took s s' id (s.onlineOf id) ((es.map Prod.fst).foldl patchMap (s.devicesOf id)) := by
  induction es generalizing s with
  | nil => exact ⟨s, rfl, rfl, rfl, fun _ _ => rfl⟩
  | cons x es ih =>
    obtain ⟨e, now⟩ := x
    obtain ⟨s₁, h₁, t₁⟩ := applyEvent_took s id now e
    obtain ⟨s₂, h₂, t₂⟩ := ih s₁
    refine ⟨s₂, by rw [applyEvents, h₁]; exact h₂, ?_, ?_, fun id' hne => ?_⟩
    · rw [t₂.online, t₁.online]
    · rw [t₂.devices, t₁.devices]
      rfl
    · rw [t₂.others id' hne, t₁.others id' hne]

end Store

/-! ## Handlers -/

theorem routerID_of_topic {id rest : Str} (h : '/' ∉ id) :
    routerIDFromTopic ("netparent/".toList ++ id ++ '/' :: rest) = id := by
  have hno : ∀ s : Str, '/' ∉ s → ∀ t, (s ++ '/' :: t).splitOn '/' = s :: t.splitOn '/' := by
    intro s hs t
    refine List.splitOnP_append_cons_of_forall_mem (fun x hx => ?_) '/' (by simp) t
    have : x ≠ '/' := fun he => hs (he ▸ hx)
    simpa using this
  have hsplit : ("netparent/".toList ++ id ++ '/' :: rest).splitOn '/' =
      "netparent".toList :: id :: rest.splitOn '/' := by
    have : "netparent/".toList ++ id ++ '/' :: rest =
        "netparent".toList ++ '/' :: (id ++ '/' :: rest) := by simp
    rw [this, hno _ (by decide), hno _ h]
  unfold routerIDFromTopic
  rw [hsplit]
  simp

/-- The subscription a message is delivered to; the web app has none for responses. -/
def subOf : Msg → Option Sub
  | .status _ => some .status
  | .devices .. => some .devices
  | .event _ => some .event
  | .response .. => none

variable {cfg : Config}

/-- All numbers of what the web app subscribes to are integers. -/
theorem payload_whole {m : Msg} {sub : Sub} (hsub : subOf m = some sub) :
    (m.payload cfg).isWholeNumbered = true := by
  cases m with
  | status online => rfl
  | devices updatedAt list =>
    have hlist : Json.allWhole (list.map devToJson) = true :=
      Json.allWhole_iff.mpr fun j hj => by
        obtain ⟨d, _, rfl⟩ := List.mem_map.mp hj
        rfl
    rw [payload_devices, snapshotJson]
    simp only [Json.isWholeNumbered, Json.allWholeMembers, hlist, Bool.and_self]
  | event e => cases e <;> rfl
  | response suffix body => cases hsub

theorem topic_untruncated (hr : cfg.Routable) {size : Nat} (rest : Str)
    (hs : rest.length + 120 ≤ size) :
    snprintf size ("netparent/".toList ++ cfg.deviceId ++ rest) =
      "netparent/".toList ++ cfg.deviceId ++ rest := by
  have hlen := hr.short
  have hhead : ("netparent/".toList).length = 10 := by decide
  refine List.take_of_length_le ?_
  rw [List.length_append, List.length_append, hhead]
  omega

theorem topic_routes (hr : cfg.Routable) (m : Msg) : routerIDFromTopic (m.topic cfg) = cfg.deviceId := by
  have hroute : ∀ rest full : Str, full = '/' :: rest →
      routerIDFromTopic ("netparent/".toList ++ cfg.deviceId ++ full) = cfg.deviceId :=
    fun rest full hfull => hfull ▸ routerID_of_topic hr.oneLevel
  cases m with
  | status online =>
    rw [topic_status]
    exact hroute "status".toList "/status".toList (by decide)
  | devices t l =>
    have hfit := topic_untruncated hr "/devices".toList (show _ ≤ 128 by decide)
    rw [topic_devices, hfit]
    exact hroute "devices".toList "/devices".toList (by decide)
  | event e =>
    have hfit := topic_untruncated hr "/event/device".toList (show _ ≤ 160 by decide)
    rw [topic_event, hfit]
    exact hroute "event/device".toList "/event/device".toList (by decide)
  | response suffix body =>
    rw [topic_response, List.append_assoc]
    exact hroute ("response/".toList ++ suffix) ("/response/".toList ++ suffix) (by simp)

theorem decode_snapshotJson (id : Str) (updatedAt : Int) (list : List Dev) :
    Json.decodeStruct DevicesPayload.set {} (snapshotJson id updatedAt list) =
      if (Msg.devices updatedAt list).Fits then
        some { updatedAt := toDouble updatedAt, devices := list.map fun d => some (deviceOf d) }
      else none := by
  have h1 : ∀ x j, DevicesPayload.set x "device_id".toList j = some x := fun _ _ => rfl
  have h2 : ∀ x j, DevicesPayload.set x "updated_at".toList j =
      (Json.decodeInt64 x.updatedAt j).map fun v => { x with updatedAt := v } := fun _ _ => rfl
  have h3 : ∀ x j, DevicesPayload.set x "devices".toList j =
      (Json.decodeSlice decodeDevicePtr none x.devices x.stale j).map fun v =>
        { x with devices := v.1, stale := v.2 } := fun _ _ => rfl
  rw [snapshotJson, Json.decodeStruct, Json.decodeMembers, h1, Option.bind_some,
    Json.decodeMembers, h2, Json.decodeInt64]
  by_cases hupdated : Json.FitsInt64 (toDouble updatedAt)
  · rw [if_pos hupdated, Option.map_some, Option.bind_some, Json.decodeMembers, h3, Json.decodeSlice,
      List.append_nil, List.drop_nil, ite_self]
    by_cases hlist : ∀ d ∈ list, d.Fits
    · have helems : Json.decodeElems decodeDevicePtr none [] (list.map devToJson) =
          some (list.map fun d => some (deviceOf d)) :=
        Json.decodeElems_map fun d hd => by rw [decodeDevicePtr_devToJson, if_pos (hlist d hd)]
      rw [if_pos ⟨hupdated, hlist⟩, helems]
      rfl
    · obtain ⟨d, hd, hunfit⟩ : ∃ d ∈ list, ¬ d.Fits := by simpa using hlist
      have helems : Json.decodeElems decodeDevicePtr none [] (list.map devToJson) = none :=
        Json.decodeElems_eq_none hd (by rw [decodeDevicePtr_devToJson, if_neg hunfit])
      rw [if_neg fun hfits => hlist hfits.2, helems]
      rfl
  · rw [if_neg hupdated, if_neg fun hfits => hupdated hfits.1]
    rfl

theorem decode_eventJson (e : Event) :
    Json.decodeStruct EventPayload.set {} (eventJson e) =
      if (Msg.event e).Fits then
        some (match e with
          | .added d => { event := "added".toList, device := some (deviceOf d) }
          | .changed d => { event := "changed".toList, device := some (deviceOf d) }
          | .removed mac => { event := "removed".toList, mac := mac })
      else none := by
  have hevent : ∀ (kind : Str) d, Json.decodeStruct EventPayload.set {}
      (.obj [("event".toList, .str kind), ("device".toList, devToJson d)]) =
      ((decodeDevicePtr none (devToJson d)).map fun v =>
        ({ event := kind, device := v } : EventPayload)).bind some := fun _ _ => rfl
  have hdev : ∀ (kind : Str) d, Json.decodeStruct EventPayload.set {}
      (.obj [("event".toList, .str kind), ("device".toList, devToJson d)]) =
      if d.Fits then some { event := kind, device := some (deviceOf d) } else none := by
    intro kind d
    rw [hevent, decodeDevicePtr_devToJson]
    split <;> rfl
  cases e with
  | added d => exact hdev _ d
  | changed d => exact hdev _ d
  | removed mac => rfl

/-- A handler that is given the document of a message does what the message asks for. -/
theorem handle_message {parse : Str → Option Json} {topic payload : Str}
    (hid : routerIDFromTopic topic ≠ []) {m : Msg} {sub : Sub} (hsub : subOf m = some sub)
    (hparse : parse payload = some (m.payload cfg)) (hmac : m ≠ .event (.removed [])) (now : Int)
    (s : Store) : handle parse sub topic payload now s =
      if m.Fits then s.take (routerIDFromTopic topic) now m else .ok s := by
  cases m with
  | status online =>
    cases hsub
    change handleStatus parse topic payload now s = _
    unfold handleStatus unmarshalStatus
    dsimp only
    rw [if_neg hid, hparse]
    rfl
  | devices t l =>
    cases hsub
    change handleDevices parse topic payload now s = _
    unfold handleDevices unmarshalDevices
    dsimp only
    rw [if_neg hid, hparse, Option.bind_some, payload_devices, decode_snapshotJson]
    by_cases hfits : (Msg.devices t l).Fits
    · rw [if_pos hfits, if_pos hfits]
      rfl
    · rw [if_neg hfits, if_neg hfits]
  | event e =>
    cases hsub
    change handleDeviceEvent parse topic payload now s = _
    unfold handleDeviceEvent unmarshalEvent
    dsimp only
    rw [if_neg hid, hparse, Option.bind_some, payload_event, decode_eventJson]
    by_cases hfits : (Msg.event e).Fits
    · rw [if_pos hfits, if_pos hfits]
      cases e with
      | added d => rfl
      | changed d => rfl
      | removed mac =>
        have hkind : ¬ ("removed".toList = "added".toList ∨ "removed".toList = "changed".toList) := by
          decide
        have hne : mac ≠ [] := fun he => hmac (he ▸ rfl)
        exact (if_neg hkind).trans (if_pos hne)
    · rw [if_neg hfits, if_neg hfits]
  | response suffix body => cases hsub

end Web

end Netparent
