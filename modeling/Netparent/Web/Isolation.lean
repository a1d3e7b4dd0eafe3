/-
  Routers do not touch each other in the store.

  Every store operation changes the entry of one router, and the change depends on that entry
  alone (`ActsOn`). So does every handler, for the router its topic names (`handle_actsOn`). A run of
  messages therefore leaves a router's entry as the messages about that router do
  (`routers_isolated`), and messages about different routers commute.
-/
import Netparent.Web.Safety

namespace Netparent.Web

variable {parse : Str → Option Json}

/-! ## Operations on one entry -/

/-- `g` succeeds on every store and changes the entry of `id` alone, by `f`. -/
def ActsOn (g : Store → Except Fault Store) (id : Str) (f : Option Router → Option Router) : Prop :=
  ∀ s, ∃ s', g s = .ok s' ∧ s'.lookup id = f (s.lookup id) ∧
    ∀ id', id' ≠ id → s'.lookup id' = s.lookup id'

theorem actsOn_ok (id : Str) : ActsOn .ok id fun r => r :=
  fun s => ⟨s, rfl, rfl, fun _ _ => rfl⟩

/-- An operation that stores a new entry made of the old one. -/
theorem actsOn_insert (id : Str) (f : Router → Router) :
    ActsOn (fun s => .ok (s.insert id (f (s.getOrCreate id)))) id
      fun r => some (f (r.getD { id := id })) :=
  fun s => ⟨_, rfl, Finmap.lookup_insert s, fun _ hne => Finmap.lookup_insert_of_ne s hne⟩

theorem setOnline_actsOn (id : Str) (online : Bool) (now : Int) :
    ∃ f, ActsOn (fun s => .ok (s.setOnline id online now)) id f :=
  ⟨_, actsOn_insert id fun r => { r with online := online, lastUpdate := now }⟩

theorem replaceDevices_actsOn (id : Str) (updatedAt : Int) {ds : List (Option Device)}
    (hds : none ∉ ds) (now : Int) :
    ∃ f, ActsOn (fun s => s.replaceDevices id updatedAt ds now) id f := by
  rcases setDevices_cases ds ∅ not_hasNil_empty with ⟨hmem, _⟩ | ⟨_, m, hm, _⟩
  · exact absurd hmem hds
  · have hset : (fun s : Store => s.replaceDevices id updatedAt ds now) = fun s =>
        .ok (s.insert id { s.getOrCreate id with
          devices := m
          devicesUpdate := if updatedAt > 0 then updatedAt else now
          lastUpdate := now }) := by
      funext s
      unfold Store.replaceDevices
      rw [hm]
    rw [hset]
    exact ⟨_, actsOn_insert id fun r => { r with
      devices := m
      devicesUpdate := if updatedAt > 0 then updatedAt else now
      lastUpdate := now }⟩

theorem upsertDevice_actsOn (id : Str) (d : Device) (now : Int) :
    ∃ f, ActsOn (fun s => s.upsertDevice id (some d) now) id f :=
  ⟨_, actsOn_insert id fun r =>
    { r with devices := r.devices.insert d.mac (some d), lastUpdate := now }⟩

/-- `RemoveDevice` creates no entry. -/
theorem removeDevice_actsOn (id mac : Str) (now : Int) :
    ∃ f, ActsOn (fun s => .ok (s.removeDevice id mac now)) id f := by
  refine ⟨Option.map fun r => { r with devices := r.devices.erase mac, lastUpdate := now },
    fun s => ⟨_, rfl, ?_⟩⟩
  cases hr : s.lookup id with
  | none =>
    rw [Store.removeDevice_none hr]
    exact ⟨hr, fun _ _ => rfl⟩
  | some r =>
    rw [Store.removeDevice_some hr]
    exact ⟨Finmap.lookup_insert s, fun _ hne => Finmap.lookup_insert_of_ne s hne⟩

/-! ## Handlers -/

/-- A message as it arrives, and when. -/
structure Message where
  sub : Sub
  topic : Str
  payload : Str
  now : Int

def deliver (parse : Str → Option Json) (m : Message) (s : Store) : Except Fault Store :=
  handle parse m.sub m.topic m.payload m.now s

/-- Messages handled one after the other. -/
def deliverAll (parse : Str → Option Json) : List Message → Store → Except Fault Store
  | [], s => .ok s
  | m :: ms, s => match deliver parse m s with
      | .error e => .error e
      | .ok s' => deliverAll parse ms s'

/-- Of the payload a handler sees what it parses to. -/
theorem deliver_of_parse {m : Message} {j : Json} (h : parse m.payload = some j) (s : Store) :
    deliver parse m s = deliver (fun _ => some j) m s := by
  obtain ⟨sub, topic, payload, now⟩ := m
  change parse payload = some j at h
  cases sub with
  | status => simp only [deliver, handle, handleStatus, unmarshalStatus, h]
  | devices => simp only [deliver, handle, handleDevices, unmarshalDevices, h]
  | event => simp only [deliver, handle, handleDeviceEvent, unmarshalEvent, h]

/-- The handler of a message acts on the entry of the router its topic names. -/
theorem handle_actsOn {m : Message} (hm : ¬ NilInSnapshot parse m.sub m.topic m.payload) :
    ∃ f, ActsOn (deliver parse m) (routerIDFromTopic m.topic) f := by
  obtain ⟨sub, topic, payload, now⟩ := m
  have hok : ∀ g : Store → Except Fault Store, g = .ok → ∃ f, ActsOn g (routerIDFromTopic topic) f :=
    fun g hg => ⟨_, hg ▸ actsOn_ok _⟩
  by_cases hdrop : routerIDFromTopic topic = [] ∨ decodes parse payload sub = false
  · exact hok _ (funext fun s => handle_dropped now s hdrop)
  obtain ⟨hid, hdec⟩ := not_or.mp hdrop
  rw [Bool.not_eq_false] at hdec
  cases sub with
  | status =>
    obtain ⟨p, hp⟩ := Option.isSome_iff_exists.mp hdec
    have heq : deliver parse ⟨.status, topic, payload, now⟩ =
        fun s => .ok (s.setOnline (routerIDFromTopic topic) p.online now) := by
      funext s
      unfold deliver handle handleStatus
      dsimp only
      rw [if_neg hid, hp]
    rw [heq]
    exact setOnline_actsOn _ _ _
  | devices =>
    obtain ⟨p, hp⟩ := Option.isSome_iff_exists.mp hdec
    have heq : deliver parse ⟨.devices, topic, payload, now⟩ =
        fun s => s.replaceDevices (routerIDFromTopic topic) p.updatedAt p.devices now := by
      funext s
      unfold deliver handle handleDevices
      dsimp only
      rw [if_neg hid, hp]
    rw [heq]
    exact replaceDevices_actsOn _ _ (fun hmem => hm ⟨rfl, hid, p, hp, hmem⟩) _
  | event =>
    obtain ⟨p, hp⟩ := Option.isSome_iff_exists.mp hdec
    have heq : ∀ s, deliver parse ⟨.event, topic, payload, now⟩ s =
        if p.event = "added".toList ∨ p.event = "changed".toList then
          if p.device ≠ none then s.upsertDevice (routerIDFromTopic topic) p.device now else .ok s
        else if p.event = "removed".toList then
          if p.mac ≠ [] then .ok (s.removeDevice (routerIDFromTopic topic) p.mac now) else .ok s
        else .ok s := by
      intro s
      unfold deliver handle handleDeviceEvent
      dsimp only
      rw [if_neg hid, hp]
    rw [funext heq]
    by_cases hset : p.event = "added".toList ∨ p.event = "changed".toList
    · simp only [if_pos hset]
      cases p.device with
      | none => exact hok _ (funext fun s => if_neg (not_not.mpr rfl))
      | some d =>
        obtain ⟨f, hf⟩ := upsertDevice_actsOn (routerIDFromTopic topic) d now
        exact ⟨f, by simpa using hf⟩
    · simp only [if_neg hset]
      by_cases hremoved : p.event = "removed".toList ∧ p.mac ≠ []
      · simp only [if_pos hremoved.1, if_pos hremoved.2]
        exact removeDevice_actsOn _ _ _
      · refine hok _ (funext fun s => ?_)
        split
        · next hr => exact if_neg fun hmac => hremoved ⟨hr, hmac⟩
        · rfl

/-- The second level of a topic, the router's place in it. -/
def secondLevel (topic : Str) : Option Str := (topic.splitOn '/')[1]?

theorem routerID_of_secondLevel {topic id : Str} (h : routerIDFromTopic topic = id) (hne : id ≠ []) :
    secondLevel topic = some id := by
  unfold routerIDFromTopic at h
  dsimp only at h
  split at h
  · exact absurd h.symm hne
  · next hlen =>
    have htwo : 1 < (topic.splitOn '/').length := by
      have := (not_or.mp hlen).1
      omega
    rw [List.getD_eq_getElem _ _ htwo] at h
    rw [secondLevel, List.getElem?_eq_getElem htwo, h]

/-- The step lemma, frame half: a message leaves the entries of other routers alone. -/
theorem deliver_others {m : Message} (hm : ¬ NilInSnapshot parse m.sub m.topic m.payload) {id : Str}
    (hid : secondLevel m.topic ≠ some id) (s : Store) :
    ∃ s', deliver parse m s = .ok s' ∧ s'.lookup id = s.lookup id := by
  by_cases hempty : routerIDFromTopic m.topic = []
  · exact ⟨s, handle_dropped m.now s (Or.inl hempty), rfl⟩
  · obtain ⟨f, hf⟩ := handle_actsOn hm
    obtain ⟨s', hs', _, hothers⟩ := hf s
    refine ⟨s', hs', hothers id fun he => ?_⟩
    exact hid (routerID_of_secondLevel he.symm (he ▸ hempty))

/-- The step lemma, two-run half: what a message makes of an entry depends on the entry alone. -/
theorem deliver_agrees {m : Message} (hm : ¬ NilInSnapshot parse m.sub m.topic m.payload) {id : Str}
    {s t : Store} (hst : s.lookup id = t.lookup id) :
    ∃ s' t', deliver parse m s = .ok s' ∧ deliver parse m t = .ok t' ∧
      s'.lookup id = t'.lookup id := by
  obtain ⟨f, hf⟩ := handle_actsOn hm
  obtain ⟨s', hs', hown, hothers⟩ := hf s
  obtain ⟨t', ht', hown', hothers'⟩ := hf t
  refine ⟨s', t', hs', ht', ?_⟩
  by_cases hid : id = routerIDFromTopic m.topic
  · rw [hid] at hst ⊢
    rw [hown, hown', hst]
  · rw [hothers id hid, hothers' id hid, hst]

theorem deliverAll_cons_ok {m : Message} {ms : List Message} {s s' : Store}
    (h : deliver parse m s = .ok s') : deliverAll parse (m :: ms) s = deliverAll parse ms s' := by
  rw [deliverAll, h]

/-- The run lemma: the entry of a router after a run is the one its own messages leave. -/
theorem deliverAll_project {msgs : List Message}
    (hnil : ∀ m ∈ msgs, ¬ NilInSnapshot parse m.sub m.topic m.payload) (id : Str) {s t : Store}
    (hst : s.lookup id = t.lookup id) :
    ∃ s' t', deliverAll parse msgs s = .ok s' ∧
      deliverAll parse (msgs.filter fun m => secondLevel m.topic = some id) t = .ok t' ∧
      s'.lookup id = t'.lookup id := by
  induction msgs generalizing s t with
  | nil => exact ⟨s, t, rfl, rfl, hst⟩
  | cons m ms ih =>
    have hm := hnil m List.mem_cons_self
    have hms : ∀ m ∈ ms, ¬ NilInSnapshot parse m.sub m.topic m.payload := fun m' hm' =>
      hnil m' (List.mem_cons_of_mem _ hm')
    by_cases hid : secondLevel m.topic = some id
    · obtain ⟨s₁, t₁, hs₁, ht₁, hagree⟩ := deliver_agrees hm hst
      obtain ⟨s', t', hs', ht', hend⟩ := ih hms hagree
      refine ⟨s', t', (deliverAll_cons_ok hs₁).trans hs', ?_, hend⟩
      rw [List.filter_cons_of_pos (by simpa using hid)]
      exact (deliverAll_cons_ok ht₁).trans ht'
    · obtain ⟨s₁, hs₁, hsame⟩ := deliver_others hm hid s
      obtain ⟨s', t', hs', ht', hend⟩ := ih hms (hsame.trans hst)
      refine ⟨s', t', (deliverAll_cons_ok hs₁).trans hs', ?_, hend⟩
      rwa [List.filter_cons_of_neg (by simpa using hid)]

/-- Messages about different routers can be handled in either order. -/
theorem deliver_comm {m m' : Message} (hm : ¬ NilInSnapshot parse m.sub m.topic m.payload)
    (hm' : ¬ NilInSnapshot parse m'.sub m'.topic m'.payload)
    (hne : secondLevel m.topic ≠ secondLevel m'.topic) (s : Store) :
    deliverAll parse [m, m'] s = deliverAll parse [m', m] s := by
  have hboth : ∀ x ∈ [m, m'], ¬ NilInSnapshot parse x.sub x.topic x.payload := by
    simpa using ⟨hm, hm'⟩
  have hswap : ∀ x ∈ [m', m], ¬ NilInSnapshot parse x.sub x.topic x.payload := by
    simpa using ⟨hm', hm⟩
  -- for each router at most one of the two messages counts, so both orders project to the same run
  have hfilter : ∀ id, [m, m'].filter (fun x => secondLevel x.topic = some id) =
      [m', m].filter fun x => secondLevel x.topic = some id := by
    intro id
    by_cases h1 : secondLevel m.topic = some id
    · have h2 : secondLevel m'.topic ≠ some id := fun h2 => hne (h1.trans h2.symm)
      simp [h1, h2]
    · by_cases h2 : secondLevel m'.topic = some id <;> simp [h1, h2]
  obtain ⟨s₁, _, hs₁, _, _⟩ := deliverAll_project hboth [] (rfl : s.lookup [] = s.lookup [])
  obtain ⟨s₂, _, hs₂, _, _⟩ := deliverAll_project hswap [] (rfl : s.lookup [] = s.lookup [])
  have hsame : s₁ = s₂ := by
    refine Finmap.ext_lookup fun id => ?_
    obtain ⟨a, a', ha, ha', haa⟩ := deliverAll_project hboth id (rfl : s.lookup id = s.lookup id)
    obtain ⟨b, b', hb, hb', hbb⟩ := deliverAll_project hswap id (rfl : s.lookup id = s.lookup id)
    have h₁ : s₁ = a := Except.ok.inj (hs₁.symm.trans ha)
    have h₂ : s₂ = b := Except.ok.inj (hs₂.symm.trans hb)
    rw [hfilter id, hb'] at ha'
    rw [h₁, h₂, haa, hbb, Except.ok.inj ha']
  rw [hs₁, hs₂, hsame]

/-- **Routers are isolated.** A run of messages leaves a router's entry as the messages about
    that router do, messages about different routers commute, and a message leaves the entry of every
    other router alone. -/
theorem routers_isolated (parse : Str → Option Json) (msgs : List Message)
    (hnil : ∀ m ∈ msgs, ¬ NilInSnapshot parse m.sub m.topic m.payload) (s : Store) :
    (∀ id, ∃ s' t', deliverAll parse msgs s = .ok s' ∧
      deliverAll parse (msgs.filter fun m => secondLevel m.topic = some id) s = .ok t' ∧
      s'.lookup id = t'.lookup id) ∧
    (∀ m ∈ msgs, ∀ m' ∈ msgs, secondLevel m.topic ≠ secondLevel m'.topic →
      deliverAll parse [m, m'] s = deliverAll parse [m', m] s) ∧
    ∀ m ∈ msgs, ∀ id, secondLevel m.topic ≠ some id →
      ∃ s', deliver parse m s = .ok s' ∧ s'.lookup id = s.lookup id :=
  ⟨fun id => deliverAll_project hnil id rfl,
    fun m hm m' hm' hne => deliver_comm (hnil m hm) (hnil m' hm') hne s,
    fun m hm _ hid => deliver_others (hnil m hm) hid s⟩

/-- Router `a` comes online and gets a device, and router `b` has a snapshot and loses its device. -/
def aOnline : Message := ⟨.status, "netparent/a/status".toList, "\x7b\"online\":true\x7d".toList, 1⟩

def aAdded : Message := ⟨.event, "netparent/a/event/device".toList, tvAdded, 3⟩

def bSnapshot : Message where
  sub := .devices
  topic := "netparent/b/devices".toList
  payload := "\x7b\"updated_at\":7,\"devices\":[\x7b\"mac\":\"02:00:00:00:00:02\"\x7d]\x7d".toList
  now := 2

def bRemoved : Message where
  sub := .event
  topic := "netparent/b/event/device".toList
  payload := "\x7b\"event\":\"removed\",\"mac\":\"02:00:00:00:00:02\"\x7d".toList
  now := 4

theorem bSnapshot_noNil : ¬ NilInSnapshot Json.read bSnapshot.sub bSnapshot.topic bSnapshot.payload := by
  have hread : Json.read bSnapshot.payload = some (.obj [("updated_at".toList, .int 7),
      ("devices".toList, .arr [.obj [("mac".toList, .str "02:00:00:00:00:02".toList)]])]) :=
    Json.read_of_print rfl (by decide +kernel)
  rintro ⟨_, _, p, hp, hnil⟩
  rw [unmarshalDevices, hread] at hp
  cases hp
  exact absurd hnil (by simp)

/-- The messages of the two take turns. -/
theorem routers_isolated_two : ∃ s t,
    deliverAll Json.read [aOnline, bSnapshot, aAdded, bRemoved] ∅ = .ok s ∧
    deliverAll Json.read [aOnline, aAdded] ∅ = .ok t ∧ s.lookup ['a'] = t.lookup ['a'] ∧
    deliverAll Json.read [aAdded, bSnapshot] ∅ = deliverAll Json.read [bSnapshot, aAdded] ∅ := by
  have hnil : ∀ m ∈ [aOnline, bSnapshot, aAdded, bRemoved],
      ¬ NilInSnapshot Json.read m.sub m.topic m.payload := by
    simp only [List.forall_mem_cons]
    exact ⟨fun hn => absurd hn.1 (by decide), bSnapshot_noNil, fun hn => absurd hn.1 (by decide),
      fun hn => absurd hn.1 (by decide), nofun⟩
  obtain ⟨hproject, hcomm, _⟩ := routers_isolated Json.read _ hnil ∅
  obtain ⟨s, t, hs, ht, hst⟩ := hproject ['a']
  have hcommutes := hcomm aAdded (by simp) bSnapshot (by simp) (by decide +kernel)
  exact ⟨s, t, hs, ht, hst, hcommutes⟩

end Netparent.Web
