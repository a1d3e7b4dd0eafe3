/-
  A web app that connects late sees what one sees that has listened all along.

  The broker keeps the last message of each retained topic and sends those, in no particular order, to a
  new subscriber. A status and a snapshot write different parts of a router's entry, and each
  overwrites all of its part, so the order does not matter. What was said by an event is only in the
  next snapshot: the views agree for every router whose events are followed by one (`late_join`), and every
  event of a daemon is, unless libmosquitto has refused a snapshot (`run_settled`).
-/
import Netparent.Announce
import Netparent.Lib.Retained
import Netparent.Web.Toggle

namespace Netparent.Web

open Register (final)

/-- What a broker has been given: a message and the device id it is of, in the order of publishing. -/
abbrev History := List (Str × Msg)

/-- All that topics and payloads depend on. -/
def configOf (id : Str) : Config := { defaultConfig with deviceId := id }

/-- The topic under which a message is kept. -/
def keptUnder (p : Str × Msg) : Option Str :=
  if p.2.retained then some (p.2.topic (configOf p.1)) else none

/-- The messages of the routers can be routed, and their numbers are plain. -/
def Sound (history : History) : Prop := ∀ p ∈ history, (configOf p.1).Routable ∧ p.2.Plain

/-- Each message arrives as one of the web app's. -/
def Arrive (parse : Str → Option Json) (fix : Str → Str) (history : History) (xs : List Message) :
    Prop := List.Forall₂ (fun p x => Relays parse fix (configOf p.1) p.2 x) history xs

/-! ## What a message writes -/

def statusOf : Msg → Option Bool
  | .status online => some online
  | _ => none

/-- What a message puts under address `k`. -/
def entryOf (k : Str) : Msg → Option (Option (Option Device))
  | .devices _ list => some ((snapshotMap list).lookup k)
  | .event (.added d) => if d.mac = k then some (some (some (deviceOf d))) else none
  | .event (.changed d) => if d.mac = k then some (some (some (deviceOf d))) else none
  | .event (.removed mac) => if mac = k ∧ mac ≠ [] then some none else none
  | _ => none

variable {parse : Str → Option Json} {fix : Str → Str}

theorem statusSet_accepted {d : Delivery} (hacc : accepted parse d = true) :
    statusSet parse d = statusOf d.published := by
  rw [statusSet, if_pos hacc]
  cases d.published <;> rfl

theorem deviceSet_accepted {d : Delivery} (hacc : accepted parse d = true) (k : Str) :
    deviceSet parse k d = entryOf k d.published := by
  rw [deviceSet, if_pos hacc]
  cases d.published with
  | event e => cases e <;> rfl
  | status online => rfl
  | devices t l => rfl
  | response suffix body => rfl

theorem statusOf_reread (m : Msg) : statusOf (rereadMsg fix m) = statusOf m := by
  cases m <;> rfl

/-- The value of `final` for the messages of one router among all. -/
def ofRouter {β : Type} (id : Str) (write : Msg → Option β) (p : Str × Msg) : Option β :=
  if p.1 = id then write p.2 else none

theorem final_ofRouter {β : Type} (id : Str) (write : Msg → Option β) (init : β) (history : History) :
    final write init ((history.filter fun p => p.1 = id).map Prod.snd) =
      final (ofRouter id write) init history := by
  induction history generalizing init with
  | nil => rfl
  | cons p ps ih =>
    rw [Register.final_cons, ofRouter]
    by_cases hp : p.1 = id
    · rw [List.filter_cons_of_pos (by simpa using hp), List.map_cons, Register.final_cons, ih, if_pos hp]
    · rw [List.filter_cons_of_neg (by simpa using hp), ih, if_neg hp]
      rfl

/-! ## One store -/

/-- A message that arrives is one of its router. -/
theorem arrive_router (id : Str) {p : Str × Msg} {x : Message} (hr : (configOf p.1).Routable)
    (hx : Relays parse fix (configOf p.1) p.2 x) : secondLevel x.topic = some id ↔ p.1 = id := by
  have hroute : routerIDFromTopic x.topic = p.1 := by
    rw [hx.topic]
    exact topic_routes hr p.2
  rw [routerID_of_secondLevel hroute hr.nonempty, Option.some.injEq]

/-- The messages of one router. -/
theorem arrive_own (id : Str) {history : History} (hsound : Sound history) {xs : List Message}
    (hx : Arrive parse fix history xs) : List.Forall₂ (Relays parse fix (configOf id))
      ((history.filter fun p => p.1 = id).map Prod.snd)
      (xs.filter fun x => secondLevel x.topic = some id) := by
  induction hx with
  | nil => exact List.Forall₂.nil
  | @cons p x ps xs hpx hrest ih =>
    obtain ⟨⟨hr, _⟩, hps⟩ := List.forall_mem_cons.mp hsound
    have hiff := arrive_router id hr hpx
    by_cases hp : p.1 = id
    · rw [List.filter_cons_of_pos (by simpa using hp),
        List.filter_cons_of_pos (by simpa using hiff.mpr hp)]
      exact List.Forall₂.cons (hp ▸ hpx) (ih hps)
    · rw [List.filter_cons_of_neg (by simpa using hp),
        List.filter_cons_of_neg (by simpa using fun he => hp (hiff.mp he))]
      exact ih hps

/-- A snapshot that was published has no nil device. -/
theorem arrive_noNil {history : History} (hsound : Sound history) {xs : List Message}
    (hx : Arrive parse fix history xs) :
    ∀ x ∈ xs, ¬ NilInSnapshot parse x.sub x.topic x.payload := by
  induction hx with
  | nil => exact nofun
  | @cons p x ps xs hpx hrest ih =>
    obtain ⟨⟨_, hplain⟩, hps⟩ := List.forall_mem_cons.mp hsound
    refine List.forall_mem_cons.mpr ⟨?_, ih hps⟩
    rintro ⟨hsub, -, q, hq, hnil⟩
    have hsub' := hpx.sub
    cases hm : p.2 with
    | devices t l =>
      have hwire := hpx.wire hplain
      rw [hm] at hwire hplain
      have hfits : (Msg.devices t (l.map (rereadDev fix))).Fits :=
        show (rereadMsg fix (.devices t l)).Fits from (rereadMsg_plain hplain).fits
      unfold unmarshalDevices at hq
      rw [hwire, Option.bind_some, rereadMsg, payload_devices, decode_snapshotJson, if_pos hfits] at hq
      cases hq
      simp at hnil
    | status online => rw [hm, hsub] at hsub'; cases hsub'
    | event e => rw [hm, hsub] at hsub'; cases hsub'
    | response suffix body => rw [hm, hsub] at hsub'; cases hsub'

/-- What a store shows after messages that arrived: for each router, what its messages wrote last. -/
theorem arrive_shows {history : History} (hsound : Sound history) {xs : List Message}
    (hx : Arrive parse fix history xs) : ∃ s, deliverAll parse xs ∅ = .ok s ∧
      ∀ id, s.onlineOf id = final (ofRouter id statusOf) false history ∧
        ∀ k, (s.devicesOf id).lookup k =
          final (ofRouter id fun m => entryOf k (rereadMsg fix m)) none history := by
  have hnil := arrive_noNil hsound hx
  obtain ⟨s, _, hs, _, _⟩ := deliverAll_project hnil [] (rfl : (∅ : Store).lookup [] = _)
  refine ⟨s, hs, fun id => ?_⟩
  obtain ⟨s', t, hs', ht, hst⟩ := deliverAll_project hnil id (rfl : (∅ : Store).lookup id = _)
  obtain rfl : s = s' := Except.ok.inj (hs.symm.trans hs')
  have honline : s.onlineOf id = t.onlineOf id := by
    rw [Store.onlineOf, Store.onlineOf, Store.getOrCreate, Store.getOrCreate, hst]
  have hdevices : s.devicesOf id = t.devicesOf id := by
    rw [Store.devicesOf, Store.devicesOf, Store.getOrCreate, Store.getOrCreate, hst]
  have hown := arrive_own id hsound hx
  rw [honline, hdevices, ← final_ofRouter]
  simp only [← final_ofRouter]
  by_cases hne : (history.filter fun p => p.1 = id) = []
  · -- nothing of this router
    rw [hne] at hown ⊢
    rw [List.forall₂_nil_left_iff.mp hown] at ht
    cases ht
    exact ⟨rfl, fun k => rfl⟩
  obtain ⟨p, hp⟩ := List.exists_mem_of_ne_nil _ hne
  have hid : p.1 = id := by simpa using (List.mem_filter.mp hp).2
  have hr : (configOf id).Routable := hid ▸ (hsound p (List.mem_filter.mp hp).1).1
  have hplain : ∀ m ∈ (history.filter fun p => p.1 = id).map Prod.snd, m.Plain := by
    intro m hm
    obtain ⟨q, hq, rfl⟩ := List.mem_map.mp hm
    exact (hsound q (List.mem_filter.mp hq).1).2
  obtain ⟨ds, hmessages, hpublished, hds⟩ := relays_carry hr hown hplain
  obtain ⟨t', ht', hstatus, hentries⟩ := deliverAll_settles (fun d hd => (hds d hd).1) (∅ : Store)
  rw [hmessages] at ht'
  obtain rfl : t = t' := Except.ok.inj (ht.symm.trans ht')
  -- the deliveries write what the messages write
  have hwrites : ∀ {β : Type} (write : Msg → Option β) (f : Delivery → Option β) (init : β),
      (∀ d ∈ ds, f d = write d.published) → final f init ds =
        final (fun m => write (rereadMsg fix m)) init
          ((history.filter fun p => p.1 = id).map Prod.snd) := by
    intro β write f init hf
    rw [Register.final_congr hf, ← Register.final_map Delivery.published, hpublished,
      Register.final_map]
  refine ⟨hstatus.trans ?_, fun k => (hentries k).trans ?_⟩
  · refine (hwrites statusOf _ _ fun d hd => statusSet_accepted (hds d hd).2).trans ?_
    exact Register.final_congr (fun m _ => statusOf_reread m) _
  · exact hwrites (entryOf k) _ _ fun d hd => deviceSet_accepted (hds d hd).2 k

/-! ## What is kept -/

def statusTopic (id : Str) : Str := (Msg.status true).topic (configOf id)

def devicesTopic (id : Str) : Str := (Msg.devices 0 []).topic (configOf id)

theorem topics_differ {id : Str} (hr : (configOf id).Routable) : statusTopic id ≠ devicesTopic id := by
  unfold statusTopic devicesTopic
  rw [topic_status, topic_devices, topic_untruncated hr "/devices".toList (show _ ≤ 128 by decide)]
  intro he
  exact absurd (List.append_cancel_left he) (by decide)

/-- A message kept under a router's topic is one of that router. -/
theorem keptUnder_router {p : Str × Msg} (hr : (configOf p.1).Routable) {topic : Str}
    (hp : keptUnder p = some topic) : routerIDFromTopic topic = p.1 := by
  unfold keptUnder at hp
  split at hp
  · cases hp
    exact topic_routes hr p.2
  · cases hp

theorem keptUnder_status_iff {p : Str × Msg} (hr : (configOf p.1).Routable) {id : Str}
    (hid : (configOf id).Routable) :
    keptUnder p = some (statusTopic id) ↔ p.1 = id ∧ ∃ online, p.2 = .status online := by
  constructor
  · intro hp
    have hroute : p.1 = id := by
      rw [← keptUnder_router hr hp]
      exact topic_routes hid (.status true)
    refine ⟨hroute, ?_⟩
    unfold keptUnder at hp
    rw [hroute] at hp
    cases hm : p.2 with
    | status online => exact ⟨online, rfl⟩
    | devices t l =>
      rw [hm] at hp
      exact absurd (Option.some.inj hp).symm (topics_differ hid)
    | event e => rw [hm] at hp; cases hp
    | response suffix body => rw [hm] at hp; cases hp
  · rintro ⟨rfl, online, honline⟩
    rw [keptUnder, honline]
    rfl

theorem keptUnder_devices_iff {p : Str × Msg} (hr : (configOf p.1).Routable) {id : Str}
    (hid : (configOf id).Routable) :
    keptUnder p = some (devicesTopic id) ↔ p.1 = id ∧ ∃ t list, p.2 = .devices t list := by
  constructor
  · intro hp
    have hroute : p.1 = id := by
      rw [← keptUnder_router hr hp]
      exact topic_routes hid (.devices 0 [])
    refine ⟨hroute, ?_⟩
    unfold keptUnder at hp
    rw [hroute] at hp
    cases hm : p.2 with
    | status online =>
      rw [hm] at hp
      exact absurd (Option.some.inj hp) (topics_differ hid)
    | devices t l => exact ⟨t, l, rfl⟩
    | event e => rw [hm] at hp; cases hp
    | response suffix body => rw [hm] at hp; cases hp
  · rintro ⟨rfl, t, list, hlist⟩
    rw [keptUnder, hlist]
    rfl

def snapshotOf : Msg → Option (List Dev)
  | .devices _ list => some list
  | _ => none

/-- What the broker keeps for a router. -/
def keptStatus (id : Str) (history : History) : Option Bool :=
  (Retained.last keptUnder (statusTopic id) history).bind fun p => statusOf p.2

def keptSnapshot (id : Str) (history : History) : Option (List Dev) :=
  (Retained.last keptUnder (devicesTopic id) history).bind fun p => snapshotOf p.2

/-- The devices an app shows for a snapshot. -/
def shownSnapshot (fix : Str → Str) (snapshot : Option (List Dev)) : Devices :=
  (snapshot.map fun list => snapshotMap (list.map (rereadDev fix))).getD ∅

/-- Every event of the router is followed by a snapshot of it. -/
def EventsFollowed (id : Str) (history : History) : Prop :=
  ∀ before e after, history = before ++ (id, .event e) :: after →
    ∃ t list, (id, .devices t list) ∈ after

section Register

variable {history : History} (hsound : Sound history) {id : Str} (hid : (configOf id).Routable)
include hsound hid

/-- The kept messages that write the online flag of a router are its status. -/
theorem status_only : ∀ p ∈ history, keptUnder p ≠ none → ofRouter id statusOf p ≠ none →
    keptUnder p = some (statusTopic id) := by
  intro p hp _ hwrite
  unfold ofRouter at hwrite
  split at hwrite
  · next hpid =>
    refine (keptUnder_status_iff (hsound p hp).1 hid).mpr ⟨hpid, ?_⟩
    cases hm : p.2 with
    | status online => exact ⟨online, rfl⟩
    | devices t l => rw [hm] at hwrite; exact absurd rfl hwrite
    | event e => rw [hm] at hwrite; exact absurd rfl hwrite
    | response suffix body => rw [hm] at hwrite; exact absurd rfl hwrite
  · exact absurd rfl hwrite

theorem devices_only (fix : Str → Str) (k : Str) : ∀ p ∈ history, keptUnder p ≠ none →
    ofRouter id (fun m => entryOf k (rereadMsg fix m)) p ≠ none →
    keptUnder p = some (devicesTopic id) := by
  intro p hp hkept hwrite
  unfold ofRouter at hwrite
  split at hwrite
  · next hpid =>
    refine (keptUnder_devices_iff (hsound p hp).1 hid).mpr ⟨hpid, ?_⟩
    cases hm : p.2 with
    | status online => rw [hm] at hwrite; exact absurd rfl hwrite
    | devices t l => exact ⟨t, l, rfl⟩
    | event e => rw [keptUnder, hm] at hkept; exact absurd rfl hkept
    | response suffix body => rw [hm] at hwrite; exact absurd rfl hwrite
  · exact absurd rfl hwrite

theorem status_settled : Retained.Settled keptUnder (statusTopic id) (ofRouter id statusOf) history := by
  intro before p after heq hwrite hne
  have hp : p ∈ history := heq ▸ List.mem_append_right _ List.mem_cons_self
  refine absurd (status_only hsound hid p hp ?_ hwrite) hne
  unfold ofRouter at hwrite
  split at hwrite
  · unfold keptUnder
    cases hm : p.2 with
    | status online => nofun
    | devices t l => nofun
    | event e => rw [hm] at hwrite; exact absurd rfl hwrite
    | response suffix body => rw [hm] at hwrite; exact absurd rfl hwrite
  · exact absurd rfl hwrite

theorem devices_settled (hfollowed : EventsFollowed id history) (fix : Str → Str) (k : Str) :
    Retained.Settled keptUnder (devicesTopic id)
      (ofRouter id fun m => entryOf k (rereadMsg fix m)) history := by
  intro before p after heq hwrite hne
  have hp : p ∈ history := heq ▸ List.mem_append_right _ List.mem_cons_self
  obtain ⟨pid, m⟩ := p
  by_cases hkept : keptUnder (pid, m) = none
  · unfold ofRouter at hwrite
    split at hwrite
    · next hpid =>
      obtain rfl : pid = id := hpid
      cases m with
      | status online => cases hkept
      | devices t l => cases hkept
      | event e =>
        obtain ⟨t, list, hlater⟩ := hfollowed before e after heq
        have hq : (pid, Msg.devices t list) ∈ history :=
          heq ▸ List.mem_append_right _ (List.mem_cons_of_mem _ hlater)
        exact ⟨_, hlater, (keptUnder_devices_iff (hsound _ hq).1 hid).mpr ⟨rfl, t, list, rfl⟩⟩
      | response suffix body => exact absurd rfl hwrite
    · exact absurd rfl hwrite
  · exact absurd (devices_only hsound hid fix k (pid, m) hp hkept hwrite) hne

theorem status_written : (Retained.last keptUnder (statusTopic id) history).bind
    (ofRouter id statusOf) = keptStatus id history := by
  unfold keptStatus
  cases hlast : Retained.last keptUnder (statusTopic id) history with
  | none => rfl
  | some p =>
    obtain ⟨hp, hkey⟩ := Retained.last_key hlast
    exact if_pos ((keptUnder_status_iff (hsound p hp).1 hid).mp hkey).1

theorem devices_written (fix : Str → Str) (k : Str) :
    ((Retained.last keptUnder (devicesTopic id) history).bind
      (ofRouter id fun m => entryOf k (rereadMsg fix m))).getD none =
      (shownSnapshot fix (keptSnapshot id history)).lookup k := by
  unfold keptSnapshot
  cases hlast : Retained.last keptUnder (devicesTopic id) history with
  | none => rfl
  | some p =>
    obtain ⟨hp, hkey⟩ := Retained.last_key hlast
    obtain ⟨hpid, t, list, hm⟩ := (keptUnder_devices_iff (hsound p hp).1 hid).mp hkey
    rw [Option.bind_some, Option.bind_some, ofRouter, if_pos hpid, hm]
    rfl

end Register

/-- The subscriptions of the web app leave out the responses. -/
def subscribed (history : History) : History := history.filter fun p => (subOf p.2).isSome

theorem final_subscribed {β : Type} (id : Str) (write : Msg → Option β)
    (hwrite : ∀ suffix body, write (.response suffix body) = none) (init : β) (history : History) :
    final (ofRouter id write) init (subscribed history) = final (ofRouter id write) init history := by
  rw [subscribed, Register.final_filter]
  refine Register.final_congr (fun p _ => ?_) init
  split
  · rfl
  · next hsub =>
    unfold ofRouter
    cases hm : p.2 with
    | response suffix body => rw [hwrite, ite_self]
    | status online => rw [hm] at hsub; exact absurd rfl hsub
    | devices t l => rw [hm] at hsub; exact absurd rfl hsub
    | event e => rw [hm] at hsub; exact absurd rfl hsub

/-- What the apps show of router `id`: `late` has been sent what the broker keeps, `live` has been there all
    the time. -/
structure Joined (fix : Str → Str) (history : History) (id : Str) (late live : Store) : Prop where
  online : late.onlineOf id = (keptStatus id history).getD false
  devices : late.devicesOf id = shownSnapshot fix (keptSnapshot id history)
  sameOnline : live.onlineOf id = late.onlineOf id
  sameDevices : EventsFollowed id history → live.devicesOf id = late.devicesOf id

/-- A late app and one that has been there all along, after any history. -/
theorem late_join {history order : History} (hsound : Sound history)
    (hperm : order.Perm (Retained.kept keptUnder history)) {late live : List Message}
    (hlate : Arrive parse fix order late) (hlive : Arrive parse fix (subscribed history) live) :
    ∃ s t, deliverAll parse late ∅ = .ok s ∧ deliverAll parse live ∅ = .ok t ∧
      ∀ id, (configOf id).Routable → Joined fix history id s t := by
  have hkept : Sound order := fun p hp => hsound p (Retained.mem_of_kept (hperm.mem_iff.mp hp)).1
  have hsub : Sound (subscribed history) := fun p hp => hsound p (List.mem_filter.mp hp).1
  obtain ⟨s, hs, hshows⟩ := arrive_shows hkept hlate
  obtain ⟨t, ht, hshows'⟩ := arrive_shows hsub hlive
  refine ⟨s, t, hs, ht, fun id hid => ?_⟩
  obtain ⟨honline, hentries⟩ := hshows id
  obtain ⟨honline', hentries'⟩ := hshows' id
  have hstatus := Retained.final_kept hperm (status_only hsound hid) false
  rw [status_written hsound hid] at hstatus
  have hdevices : ∀ k, (s.devicesOf id).lookup k =
      (shownSnapshot fix (keptSnapshot id history)).lookup k := fun k => by
    rw [hentries k, Retained.final_kept hperm (devices_only hsound hid fix k),
      devices_written hsound hid fix k]
  refine ⟨honline.trans hstatus, Finmap.ext_lookup hdevices, ?_, fun hfollowed =>
    Finmap.ext_lookup fun k => ?_⟩
  · rw [honline', final_subscribed id statusOf (fun _ _ => rfl), honline, hstatus,
      Retained.final_settled (status_settled hsound hid), status_written hsound hid]
    intro p hp hkey
    obtain ⟨hpid, online, hm⟩ := (keptUnder_status_iff (hsound p hp).1 hid).mp hkey
    rw [ofRouter, if_pos hpid, hm]
    nofun
  · rw [hentries' k, final_subscribed id _ (fun _ _ => rfl), hdevices k,
      Retained.final_settled (devices_settled hsound hid hfollowed fix k),
      devices_written hsound hid fix k]
    intro p hp hkey
    obtain ⟨hpid, u, list, hm⟩ := (keptUnder_devices_iff (hsound p hp).1 hid).mp hkey
    rw [ofRouter, if_pos hpid, hm]
    nofun

/-! ## The daemons' histories -/

/-- A log of the daemon with this device id, on any machine and any schedule, up to one of its turns. -/
def DaemonLog (id : Str) (log : List Deed) : Prop :=
  ∃ (κ : Type) (h : LibHost κ) (daemonParse : Str → Option Json) (opts : List Opt) (uci : Uci)
    (cfg : Config) (sched : Schedule) (k : κ),
    ((npConfigLoad uci).1 = 0 → (npConfigLoad uci).2.toConfig = some cfg) ∧ cfg.deviceId = id ∧
      log = (npMain h daemonParse opts uci sched k).2.log

/-- What is said besides the status, which the broker publishes too: the will. -/
def spoken (ms : List Msg) : List Msg := ms.filter fun m => (statusOf m).isNone

/-- What the broker has of each router is what libmosquitto took in the runs of its daemon, one after
    the other, each message once; its status may be said anywhere between, and the messages of
    different routers come in any order. -/
structure FromDaemons (runs : Str → List (List Deed)) (history : History) : Prop where
  daemon : ∀ id, ∀ log ∈ runs id, DaemonLog id log
  said : ∀ id, spoken ((history.filter fun p => p.1 = id).map Prod.snd) = spoken ((runs id).flatMap taken)

theorem spoken_followed {ms : List Msg} (hms : Followed ms) : Followed (spoken ms) := by
  induction ms with
  | nil => exact hms
  | cons m ms ih =>
    have htail : Followed ms := fun before e after heq => hms (m :: before) e after (by rw [heq]; rfl)
    unfold spoken at ih ⊢
    rw [List.filter_cons]
    by_cases hm : (statusOf m).isNone = true
    · rw [if_pos hm]
      intro before e after heq
      cases before with
      | nil =>
        obtain ⟨rfl, rfl⟩ := List.cons.inj heq
        obtain ⟨t, list, hlater⟩ := hms [] e ms rfl
        exact ⟨t, list, List.mem_filter.mpr ⟨hlater, rfl⟩⟩
      | cons m' before => exact ih htail before e after (List.cons.inj heq).2
    · rw [if_neg hm]
      exact ih htail

theorem runs_followed {id : Str} {logs : List (List Deed)} (hall : ∀ log ∈ logs, DaemonLog id log)
    (htaken : ∀ log ∈ logs, SnapshotsTaken log) : Followed (logs.flatMap taken) := by
  induction logs with
  | nil => exact followed_of_noEvent fun _ => List.not_mem_nil
  | cons log logs ih =>
    obtain ⟨⟨κ, h, daemonParse, opts, uci, cfg, sched, k, hcfg, _, rfl⟩, hrest⟩ :=
      List.forall_mem_cons.mp hall
    obtain ⟨hlog, hlogs⟩ := List.forall_mem_cons.mp htaken
    exact (taken_followed (npMain_followed h daemonParse hcfg opts sched k) hlog).append (ih hrest hlogs)

theorem run_settled {runs : Str → List (List Deed)} {history : History} (hruns : FromDaemons runs history)
    {id : Str} (htaken : ∀ log ∈ runs id, SnapshotsTaken log) : EventsFollowed id history := by
  have hfollowed := spoken_followed (runs_followed (hruns.daemon id) htaken)
  rw [← hruns.said] at hfollowed
  intro before e after heq
  have hsplit : spoken ((history.filter fun p => p.1 = id).map Prod.snd) =
      spoken ((before.filter fun p => p.1 = id).map Prod.snd) ++
        .event e :: spoken ((after.filter fun p => p.1 = id).map Prod.snd) := by
    rw [heq, List.filter_append, List.filter_cons_of_pos (by simp), List.map_append, List.map_cons]
    unfold spoken
    rw [List.filter_append, List.filter_cons_of_pos rfl]
  obtain ⟨t, list, hlater⟩ := hfollowed _ e _ hsplit
  obtain ⟨⟨pid, m⟩, hp, hm⟩ := List.mem_map.mp (List.mem_filter.mp hlater).1
  obtain ⟨hmem, hpid⟩ := List.mem_filter.mp hp
  refine ⟨t, list, ?_⟩
  rw [← hm, ← of_decide_eq_true hpid]
  exact hmem

/-- The machine of `Sim`, on which the set-up works; libmosquitto takes no TLS without a CA. -/
def joinHost : LibHost Sim :=
  { Sim.host defaultConfig with
    popen := fun cmd b =>
      if cmd = nftCmd (saddrRuleArgs defaultConfig) ∨ cmd = nftCmd (daddrRuleArgs defaultConfig) then
        (some ⟨[], 0⟩, b)
      else Sim.popen defaultConfig cmd b
    popenWrite := fun _ _ b => (some 0, b)
    lib := fun call b => (match call with | .tlsSet none _ _ => false | _ => true, b) }

/-- TLS is off. -/
def uciOf (id : Str) : Uci := .package [⟨"main".toList, "netparent".toList,
  [("tls_enabled".toList, .string ['0']), ("device_id".toList, .string id)]⟩]

def blockPayload : Str := "\x7b\"mac\":\"02:00:00:00:00:01\"\x7d".toList

/-- Connected, and then a device is blocked. -/
def joinSchedule : Schedule where
  watcher := true
  stop := false
  rounds := [⟨[.connect 0], .success, false⟩,
    ⟨[.message "netparent/router-1/cmd/block".toList blockPayload], .success, false⟩]
  drain := fun _ => []

def joinLog (id : Str) : List Deed :=
  (npMain joinHost Json.read [.f] (uciOf id) joinSchedule house.host).2.log

def joinRuns (id : Str) : List (List Deed) :=
  if id ∈ ["router-1".toList, "router-2".toList] then [joinLog id] else []

def joinDevices (blocked : Bool) : List Dev :=
  [{ tvUntil 100 0 with blocked := blocked }, { nas with lastSeen := 0 }]

/-- What the first router says besides its status. The second says the first of it. -/
def joinNews : List (Int × List Dev ⊕ Event) :=
  [.inl (0, joinDevices false), .inr (.changed { tvUntil 100 0 with blocked := true }),
    .inl (0, joinDevices true)]

/-- Only the first router gets the command, and the second is lost in the end. -/
def joinHistory : History :=
  [("router-1".toList, .status true), ("router-1".toList, .devices 0 (joinDevices false)),
    ("router-2".toList, .status true),
    ("router-1".toList, .event (.changed { tvUntil 100 0 with blocked := true })),
    ("router-2".toList, .devices 0 (joinDevices false)), ("router-1".toList, .devices 0 (joinDevices true)),
    ("router-2".toList, .status false)]

/-- What arrives of a message. -/
def relayed (p : Str × Msg) : Message where
  sub := (subOf p.2).getD .status
  topic := p.2.topic (configOf p.1)
  payload := Json.print (p.2.payload (configOf p.1))
  now := 5

theorem arrive_relayed {history : History} (hsub : ∀ p ∈ history, (subOf p.2).isSome = true) :
    Arrive Json.read id history (history.map relayed) := by
  refine List.forall₂_map_right_iff.mpr (List.forall₂_same.mpr fun p hp => relays_printed ?_ rfl rfl)
  obtain ⟨sub, heq⟩ := Option.isSome_iff_exists.mp (hsub p hp)
  rw [relayed, heq]
  rfl

theorem joinRuns_of_mem {id : Str} (hid : id ∈ ["router-1".toList, "router-2".toList]) :
    joinRuns id = [joinLog id] := if_pos hid

theorem uciOf_toConfig (id : Str) : (npConfigLoad (uciOf id)).2.toConfig = some (configOf id) := rfl

theorem joinLog_daemon (id : Str) : DaemonLog id (joinLog id) := by
  unfold joinLog
  exact ⟨Sim, joinHost, Json.read, [.f], uciOf id, configOf id, joinSchedule, house.host,
    fun _ => uciOf_toConfig id, rfl, rfl⟩

theorem joinRuns_cases {id : Str} {log : List Deed} (hlog : log ∈ joinRuns id) : log = joinLog id := by
  unfold joinRuns at hlog
  split at hlog
  · exact List.mem_singleton.mp hlog
  · cases hlog

theorem joinHistory_runs : FromDaemons joinRuns joinHistory where
  daemon id log hlog := joinRuns_cases hlog ▸ joinLog_daemon id
  said id := by
    by_cases hid : id ∈ ["router-1".toList, "router-2".toList]
    · rw [joinRuns_of_mem hid]
      rcases List.mem_pair.mp hid with rfl | rfl
      · exact Eq.trans (b := joinNews.map ofNews) (eq_of_news (by decide +kernel))
          (eq_of_news (by decide +kernel)).symm
      · exact Eq.trans (b := (joinNews.take 1).map ofNews) (eq_of_news (by decide +kernel))
          (eq_of_news (by decide +kernel)).symm
    · have hnone : joinHistory.filter (fun p => p.1 = id) = [] :=
        List.filter_eq_nil_iff.mpr fun p hp hpid => hid (by
          have hall : joinHistory.all (fun p => p.1 ∈ ["router-1".toList, "router-2".toList]) = true := by
            decide +kernel
          rw [← of_decide_eq_true hpid]
          exact of_decide_eq_true (List.all_eq_true.mp hall p hp))
      rw [hnone, joinRuns, if_neg hid]
      rfl

theorem joinHistory_sound : Sound joinHistory := by
  intro p hp
  have hrouter : joinHistory.all (fun p => p.1 ∈ ["router-1".toList, "router-2".toList]) = true := by
    decide +kernel
  have hplain : joinHistory.all (fun p => p.2.Plain) = true := by decide +kernel
  refine ⟨?_, of_decide_eq_true (List.all_eq_true.mp hplain p hp)⟩
  rcases List.mem_pair.mp (of_decide_eq_true (List.all_eq_true.mp hrouter p hp)) with hid | hid <;>
    · rw [hid]
      exact ⟨by decide, by decide, by decide⟩

/-- libmosquitto has not taken the message. -/
def Deed.refused : Deed → Bool
  | .act (.publish _ ok) => !ok
  | _ => false

theorem joinLog_taken {id : Str} (hid : id ∈ ["router-1".toList, "router-2".toList]) :
    SnapshotsTaken (joinLog id) := by
  have hnone : (joinLog id).any Deed.refused = false := by
    rcases List.mem_pair.mp hid with rfl | rfl <;> decide +kernel
  exact fun t list hm => absurd rfl (List.any_eq_false.mp hnone _ hm)

/-- The kept messages arrive from the last to the first. -/
def joinOrder : History := (Retained.kept keptUnder joinHistory).reverse

end Netparent.Web
