/-
  What the store shows after a router's messages, by the order in which they were handled.

  Every status message overwrites the online flag, every snapshot the whole device map, every event one
  device (`deliver_delivery`), and nothing compares the messages' age. So the store shows, under each
  heading, the message handled last (`deliverAll_settles`), and it mirrors the router exactly when
  that one says what the last published one says (`mirrors_iff`). In the order of publishing it
  does, as long as the last snapshot is accepted and no event follows it (`mirrors_in_order`).
-/
import Netparent.Diff
import Netparent.Watch
import Netparent.Web.Isolation

namespace Netparent.Web

open Register (final)

/-- A message of the daemon and the MQTT message that carries it. -/
structure Delivery where
  published : Msg
  message : Message

/-- The delivery is one of router `id`, to the handler of its subscription, and its payload, if it decodes
    at all, is the document that was published. -/
structure Carries (parse : Str → Option Json) (cfg : Config) (id : Str) (d : Delivery) : Prop where
  sub : subOf d.published = some d.message.sub
  topic : routerIDFromTopic d.message.topic = id
  wire : decodes parse d.message.payload d.message.sub = true →
    parse d.message.payload = some (d.published.payload cfg)

/-- The handler goes through with the message. -/
def accepted (parse : Str → Option Json) (d : Delivery) : Bool :=
  routerIDFromTopic d.message.topic ≠ [] && decodes parse d.message.payload d.message.sub

/-- The online flag a delivery sets. -/
def statusSet (parse : Str → Option Json) (d : Delivery) : Option Bool :=
  if accepted parse d then
    match d.published with
    | .status online => some online
    | _ => none
  else none

/-- What a delivery puts under address `k`: the device, or `none` for nothing; an event about another
    address leaves it alone, and a removal without address is ignored. -/
def deviceSet (parse : Str → Option Json) (k : Str) (d : Delivery) : Option (Option (Option Device)) :=
  if accepted parse d then
    match d.published with
    | .devices _ list => some ((snapshotMap list).lookup k)
    | .event (.added dev) => if dev.mac = k then some (some (some (deviceOf dev))) else none
    | .event (.changed dev) => if dev.mac = k then some (some (some (deviceOf dev))) else none
    | .event (.removed mac) => if mac = k ∧ mac ≠ [] then some none else none
    | _ => none
  else none

variable {parse : Str → Option Json} {cfg : Config} {id : Str}

/-! ## One delivery -/

/-- A payload that decodes and is the published document has numbers that fit. -/
theorem fits_of_decodes {m : Msg} {sub : Sub} (hsub : subOf m = some sub) {payload : Str}
    (hparse : parse payload = some (m.payload cfg)) (hdec : decodes parse payload sub = true) :
    m.Fits := by
  cases m with
  | status online => trivial
  | devices t l =>
    cases hsub
    change (unmarshalDevices parse payload).isSome = true at hdec
    unfold unmarshalDevices at hdec
    rw [hparse, Option.bind_some, payload_devices, decode_snapshotJson] at hdec
    by_contra hno
    rw [if_neg hno] at hdec
    cases hdec
  | event e =>
    cases hsub
    change (unmarshalEvent parse payload).isSome = true at hdec
    unfold unmarshalEvent at hdec
    rw [hparse, Option.bind_some, payload_event, decode_eventJson] at hdec
    by_contra hno
    rw [if_neg hno] at hdec
    cases hdec
  | response suffix body => cases hsub

/-- The other way round: such a document decodes when its numbers fit. -/
theorem decodes_of_fits {m : Msg} {sub : Sub} (hsub : subOf m = some sub) {payload : Str}
    (hparse : parse payload = some (m.payload cfg)) (hfits : m.Fits) :
    decodes parse payload sub = true := by
  cases m with
  | status online =>
    cases hsub
    change (unmarshalStatus parse payload).isSome = true
    rw [unmarshalStatus, hparse]
    rfl
  | devices t l =>
    cases hsub
    change (unmarshalDevices parse payload).isSome = true
    rw [unmarshalDevices, hparse, Option.bind_some, payload_devices, decode_snapshotJson,
      if_pos hfits]
    rfl
  | event e =>
    cases hsub
    change (unmarshalEvent parse payload).isSome = true
    rw [unmarshalEvent, hparse, Option.bind_some, payload_event, decode_eventJson, if_pos hfits]
    rfl
  | response suffix body => cases hsub

theorem handle_removed_empty {topic payload : Str} (hid : routerIDFromTopic topic ≠ [])
    (hparse : parse payload = some ((Msg.event (.removed [])).payload cfg)) (now : Int) (s : Store) :
    handle parse .event topic payload now s = .ok s := by
  change handleDeviceEvent parse topic payload now s = _
  unfold handleDeviceEvent unmarshalEvent
  dsimp only
  rw [if_neg hid, hparse, Option.bind_some, payload_event, decode_eventJson]
  rfl

/-- Only what `patchMap` changes is under the event's address. -/
theorem lookup_patchMap (m : Devices) (e : Event) (k : Str) : (patchMap m e).lookup k =
    (match e with
      | .added d => if d.mac = k then some (some (some (deviceOf d))) else none
      | .changed d => if d.mac = k then some (some (some (deviceOf d))) else none
      | .removed mac => if mac = k then some none else none).getD (m.lookup k) := by
  have hinsert : ∀ d : Dev, (m.insert d.mac (some (deviceOf d))).lookup k =
      (if d.mac = k then some (some (some (deviceOf d))) else none).getD (m.lookup k) := by
    intro d
    by_cases hk : d.mac = k
    · rw [hk, Finmap.lookup_insert, if_pos rfl]
      rfl
    · rw [Finmap.lookup_insert_of_ne _ (Ne.symm hk), if_neg hk]
      rfl
  cases e with
  | added d => exact hinsert d
  | changed d => exact hinsert d
  | removed mac =>
    dsimp only
    by_cases hk : mac = k
    · subst hk
      rw [patchMap, Finmap.lookup_erase, if_pos rfl]
      rfl
    · rw [patchMap, Finmap.lookup_erase_ne (Ne.symm hk), if_neg hk]
      rfl

/-- The step lemma: a delivery overwrites what it sets and leaves the rest alone. -/
theorem deliver_delivery {d : Delivery} (hc : Carries parse cfg id d) (s : Store) :
    ∃ s', deliver parse d.message s = .ok s' ∧
      s'.onlineOf id = (statusSet parse d).getD (s.onlineOf id) ∧
      ∀ k, (s'.devicesOf id).lookup k =
        (deviceSet parse k d).getD ((s.devicesOf id).lookup k) := by
  obtain ⟨m, ⟨sub, topic, payload, now⟩⟩ := d
  obtain ⟨hsub, htopic, hwire⟩ := hc
  dsimp only at hsub htopic hwire
  unfold deliver statusSet deviceSet
  by_cases hacc : accepted parse ⟨m, ⟨sub, topic, payload, now⟩⟩ = true
  swap
  · -- dropped
    rw [if_neg hacc]
    refine ⟨s, handle_dropped now s ?_, rfl, fun k => ?_⟩
    · by_contra hno
      obtain ⟨hid, hdec⟩ := not_or.mp hno
      exact hacc (by simpa [accepted] using ⟨hid, by simpa using hdec⟩)
    · rw [if_neg hacc]
      rfl
  simp only [if_pos hacc]
  obtain ⟨hid, hdec⟩ : routerIDFromTopic topic ≠ [] ∧ decodes parse payload sub = true := by
    simpa [accepted] using hacc
  have hparse := hwire hdec
  have hfits := fits_of_decodes hsub hparse hdec
  have hmsg : m ≠ .event (.removed []) →
      handle parse sub topic payload now s = s.take id now m := fun hmac => by
    rw [handle_message hid hsub hparse hmac now s, if_pos hfits, htopic]
  cases m with
  | status online =>
    have htook := Store.setOnline_took s id online now
    exact ⟨_, hmsg nofun, htook.online, fun k => by rw [htook.devices]; rfl⟩
  | devices t l =>
    obtain ⟨s', hs', htook⟩ := Store.replaceDevices_took s id (toDouble t) l now
    exact ⟨s', (hmsg nofun).trans hs', htook.online, fun k => by rw [htook.devices]; rfl⟩
  | event e =>
    obtain ⟨s', hs', htook⟩ := Store.applyEvent_took s id now e
    cases e with
    | added dev =>
      exact ⟨s', (hmsg nofun).trans hs', htook.online, fun k => by
        rw [htook.devices, lookup_patchMap]⟩
    | changed dev =>
      exact ⟨s', (hmsg nofun).trans hs', htook.online, fun k => by
        rw [htook.devices, lookup_patchMap]⟩
    | removed mac =>
      by_cases hmac : mac = []
      · subst hmac
        cases hsub
        exact ⟨s, handle_removed_empty hid hparse now s, rfl, fun k => by simp⟩
      · refine ⟨s', (hmsg fun he => hmac (by simpa using he)).trans hs', htook.online, fun k => ?_⟩
        rw [htook.devices, lookup_patchMap]
        simp [hmac]
  | response suffix body => cases hsub

/-! ## Runs -/

/-- The run lemma: under each heading the store shows what was set last. -/
theorem deliverAll_settles {ds : List Delivery} (hc : ∀ d ∈ ds, Carries parse cfg id d) (s : Store) :
    ∃ s', deliverAll parse (ds.map Delivery.message) s = .ok s' ∧
      s'.onlineOf id = final (statusSet parse) (s.onlineOf id) ds ∧
      ∀ k, (s'.devicesOf id).lookup k = final (deviceSet parse k) ((s.devicesOf id).lookup k) ds := by
  induction ds generalizing s with
  | nil => exact ⟨s, rfl, rfl, fun _ => rfl⟩
  | cons d ds ih =>
    obtain ⟨s₁, hs₁, honline, hdevices⟩ := deliver_delivery (hc d List.mem_cons_self) s
    obtain ⟨s', hs', honline', hdevices'⟩ := ih (fun d' hd' => hc d' (List.mem_cons_of_mem _ hd')) s₁
    refine ⟨s', (deliverAll_cons_ok hs₁).trans hs', ?_, fun k => ?_⟩
    · rw [honline', honline, Register.final_cons]
    · rw [hdevices', hdevices, Register.final_cons]

/-- The last status published. -/
def lastStatus (pub : List Delivery) : Option Bool :=
  (pub.filterMap fun d => match d.published with | .status online => some online | _ => none).getLast?

/-- The last devices snapshot published. -/
def lastSnapshot (pub : List Delivery) : Option (List Dev) :=
  (pub.filterMap fun d => match d.published with | .devices _ list => some list | _ => none).getLast?

/-- The store shows of router `id` what it published last, `last_seen` apart. -/
structure Mirrors (id : Str) (pub : List Delivery) (s : Store) : Prop where
  online : ∀ online, lastStatus pub = some online → s.onlineOf id = online
  devices : ∀ list, lastSnapshot pub = some list → SameDevices (s.devicesOf id) (snapshotMap list)

/-- In the order of handling, the last status is the last one published, and for each address the
    last message that decides it (a snapshot, or an event about the address) shows what the last published
    snapshot shows. -/
structure EndsUpToDate (parse : Str → Option Json) (id : Str) (pub ord : List Delivery) (s : Store) :
    Prop where
  status : ∀ online, lastStatus pub = some online →
    final (statusSet parse) (s.onlineOf id) ord = online
  devices : ∀ list, lastSnapshot pub = some list → ∀ k,
    (final (deviceSet parse k) ((s.devicesOf id).lookup k) ord).map (Option.map Device.seenless) =
      ((snapshotMap list).lookup k).map (Option.map Device.seenless)

/-- **Which orders mirror the router.** Whatever the order in which the messages of a router are
    handled, every one of them is, and the store mirrors the router exactly when the order ends up to date. -/
theorem mirrors_iff {pub ord : List Delivery} (hperm : ord.Perm pub)
    (hc : ∀ d ∈ pub, Carries parse cfg id d) (s : Store) :
    ∃ s', deliverAll parse (ord.map Delivery.message) s = .ok s' ∧
      (Mirrors id pub s' ↔ EndsUpToDate parse id pub ord s) := by
  obtain ⟨s', hs', honline, hdevices⟩ :=
    deliverAll_settles (fun d hd => hc d (hperm.mem_iff.mp hd)) s
  refine ⟨s', hs', ⟨fun hm => ⟨?_, ?_⟩, fun he => ⟨?_, ?_⟩⟩⟩
  · intro online hlast
    rw [← honline]
    exact hm.online online hlast
  · intro list hlast k
    rw [← hdevices]
    exact hm.devices list hlast k
  · intro online hlast
    rw [honline]
    exact he.status online hlast
  · intro list hlast k
    rw [hdevices]
    exact he.devices list hlast k

/-- A republish handled in the order of publishing: its events, then its snapshot. -/
theorem mirrors_in_order {ds : List Delivery} {d : Delivery} {t : Int} {list : List Dev}
    (hc : ∀ x ∈ ds ++ [d], Carries parse cfg id x) (hd : d.published = .devices t list)
    (hacc : accepted parse d = true) (s : Store) :
    ∃ s', deliverAll parse ((ds ++ [d]).map Delivery.message) s = .ok s' ∧
      s'.devicesOf id = snapshotMap list := by
  obtain ⟨s', hs', _, hdevices⟩ := deliverAll_settles hc s
  refine ⟨s', hs', Finmap.ext_lookup fun k => ?_⟩
  have hset : deviceSet parse k d = some ((snapshotMap list).lookup k) := by
    rw [deviceSet, if_pos hacc, hd]
  rw [hdevices, Register.final_append, Register.final_cons, hset]
  rfl

/-! ## A renewal handled in the wrong order -/

/-- The machine at the time of a republish. -/
def renewalHost (content : Str) (now : Int) : Host Unit :=
  { listingHost [] (some content) with time := fun k => (now, k) }

def tvUntil (expires now : Int) : Dev :=
  { mac := "02:00:00:00:00:01".toList, ip := "10.0.0.2".toList, hostname := "tv".toList
    leaseExpires := expires, lastSeen := now }

/-- The snapshot or the event a message is. -/
def newsOf : Msg → Option (Int × List Dev ⊕ Event)
  | .devices updatedAt list => some (.inl (updatedAt, list))
  | .event e => some (.inr e)
  | _ => none

def ofNews : Int × List Dev ⊕ Event → Msg
  | .inl (updatedAt, list) => .devices updatedAt list
  | .inr e => .event e

theorem eq_of_news {msgs : List Msg} {news : List (Int × List Dev ⊕ Event)}
    (h : msgs.map newsOf = news.map some) : msgs = news.map ofNews := by
  induction msgs generalizing news with
  | nil => rw [List.map_eq_nil_iff.mp h.symm]; rfl
  | cons m ms ih =>
    cases news with
    | nil => cases h
    | cons n ns =>
      rw [List.map_cons, List.map_cons, List.cons.injEq] at h
      rw [List.map_cons, ← ih h.2]
      congr 1
      cases m <;> cases h.1 <;> rfl

/-- What the daemon publishes before and after the lease of `tv` is renewed. -/
def renewalNews : List (Int × List Dev ⊕ Event) :=
  [.inl (50, [tvUntil 100 50]), .inr (.changed (tvUntil 200 60)), .inl (60, [tvUntil 200 60])]

theorem renewal_published :
    publishedAfter defaultConfig none [] (renewalHost leasedUntil100 50, ()) ++
      publishedAfter defaultConfig none [(renewalHost leasedUntil100 50, ())]
        (renewalHost leasedUntil200 60, ()) = renewalNews.map ofNews :=
  eq_of_news (by decide +kernel)

/-- The payloads, as the daemon prints them. -/
def snapshotText (expires now : Str) : Str :=
  "\x7b\"device_id\":\"router-1\",\"updated_at\":".toList ++ now ++
    ",\"devices\":[\x7b\"mac\":\"02:00:00:00:00:01\",\"ip\":\"10.0.0.2\",".toList ++
    "\"hostname\":\"tv\",\"blocked\":false,\"lease_expires\":".toList ++ expires ++
    ",\"last_seen\":".toList ++ now ++ "\x7d]\x7d".toList

def changedText : Str :=
  "\x7b\"event\":\"changed\",\"device\":\x7b\"mac\":\"02:00:00:00:00:01\",".toList ++
    "\"ip\":\"10.0.0.2\",\"hostname\":\"tv\",\"blocked\":false,".toList ++
    "\"lease_expires\":200,\"last_seen\":60\x7d\x7d".toList

def delivery (m : Msg) (sub : Sub) (payload : Str) : Delivery :=
  { published := m, message := ⟨sub, m.topic defaultConfig, payload, 61⟩ }

def renewalDeliveries : List Delivery :=
  [delivery (.devices 50 [tvUntil 100 50]) .devices (snapshotText "100".toList "50".toList),
   delivery (.event (.changed (tvUntil 200 60))) .event changedText,
   delivery (.devices 60 [tvUntil 200 60]) .devices (snapshotText "200".toList "60".toList)]

/-- The text is what is printed of the message. -/
theorem delivery_carries {m : Msg} {sub : Sub} {payload : Str} (hsub : subOf m = some sub)
    (htext : Json.print (m.payload defaultConfig) = payload) :
    Carries Json.read defaultConfig defaultConfig.deviceId (delivery m sub payload) where
  sub := hsub
  topic := topic_routes ⟨by decide, by decide, by decide⟩ m
  wire := fun _ => Json.read_of_print (payload_whole hsub) htext

theorem renewalDeliveries_carry : ∀ d ∈ renewalDeliveries,
    Carries Json.read defaultConfig defaultConfig.deviceId d := by
  simp only [renewalDeliveries, List.forall_mem_cons, List.not_mem_nil, false_implies, implies_true,
    and_true]
  exact ⟨delivery_carries rfl (by decide +kernel), delivery_carries rfl (by decide +kernel),
    delivery_carries rfl (by decide +kernel)⟩

/-- The three messages in the order of publishing. -/
theorem mirrors_iff_renewal : ∃ s', deliverAll Json.read
    (renewalDeliveries.map Delivery.message) ∅ = .ok s' ∧
      (Mirrors defaultConfig.deviceId renewalDeliveries s' ↔
        EndsUpToDate Json.read defaultConfig.deviceId renewalDeliveries renewalDeliveries ∅) :=
  mirrors_iff (List.Perm.refl _) renewalDeliveries_carry ∅

/-- The same messages, the older snapshot handled last: the store shows the old lease. -/
theorem older_snapshot_shown :
    renewalDeliveries.map Delivery.published =
      publishedAfter defaultConfig none [] (renewalHost leasedUntil100 50, ()) ++
        publishedAfter defaultConfig none [(renewalHost leasedUntil100 50, ())]
          (renewalHost leasedUntil200 60, ()) ∧
    renewalDeliveries.reverse.Perm renewalDeliveries ∧
    ∃ s', deliverAll Json.read (renewalDeliveries.reverse.map Delivery.message) ∅ = .ok s' ∧
      ¬ Mirrors defaultConfig.deviceId renewalDeliveries s' := by
  refine ⟨renewal_published.symm ▸ rfl, List.reverse_perm _, ?_⟩
  have hc : ∀ d ∈ renewalDeliveries.reverse,
      Carries Json.read defaultConfig defaultConfig.deviceId d :=
    fun d hd => renewalDeliveries_carry d (List.mem_reverse.mp hd)
  obtain ⟨s', hs', _, hdevices⟩ := deliverAll_settles hc ∅
  refine ⟨s', hs', fun hm => ?_⟩
  have hshown := hm.devices [tvUntil 200 60] rfl (tvUntil 200 60).mac
  rw [hdevices] at hshown
  revert hshown
  decide +kernel

end Netparent.Web
