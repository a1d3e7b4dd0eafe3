/-
  store.go: the routers the app knows, and `Routers()`.

  An entry comes with the first message that makes a handler store something for its router, under the id
  in the topic, and never goes: a snapshot without devices, a router that is offline, the removal of
  a device all leave it. So the listing has every router that was ever heard of, once, in the order of
  the ids, and says of each whether it is online by its last status (`routers_listed`).
-/
import Netparent.Lib.Register
import Netparent.Web.Button

namespace Netparent.Web

open ServeMux (Url)
open SliceSort (IsSort)

/-! ## What a message makes the store know -/

/-- The router a message makes the store have an entry of. -/
def namedBy (parse : Str → Option Json) (m : Message) : Option Str :=
  let id := routerIDFromTopic m.topic
  if id = [] then none
  else match m.sub with
    | .status => (unmarshalStatus parse m.payload).map fun _ => id
    | .devices => (unmarshalDevices parse m.payload).map fun _ => id
    | .event => (unmarshalEvent parse m.payload).bind fun p =>
        if (p.event = "added".toList ∨ p.event = "changed".toList) ∧ p.device ≠ none then some id
        else none

/-- What a message says of whether router `id` is online. -/
def onlineBy (parse : Str → Option Json) (id : Str) (m : Message) : Option Bool :=
  if m.sub = .status ∧ namedBy parse m = some id then (unmarshalStatus parse m.payload).map (·.online)
  else none

/-- Every entry is that of the router it is under. -/
def Keyed (s : Store) : Prop := ∀ id r, s.lookup id = some r → r.id = id

theorem Keyed.empty : Keyed ∅ := fun id r hr => by
  rw [Finmap.lookup_empty] at hr
  cases hr

theorem Keyed.getOrCreate {s : Store} (hs : Keyed s) (id : Str) : (s.getOrCreate id).id = id := by
  unfold Store.getOrCreate
  cases hr : s.lookup id with
  | none => rfl
  | some r => exact hs id r hr

section Known

variable {parse : Str → Option Json}

/-- What a message does: nothing, or it stores an entry, for a router it names or one that is known. -/
structure Writes (parse : Str → Option Json) (m : Message) (s s' : Store) (r : Router) : Prop where
  stored : s' = s.insert (routerIDFromTopic m.topic) r
  id : r.id = (s.getOrCreate (routerIDFromTopic m.topic)).id
  online : r.online =
    (onlineBy parse (routerIDFromTopic m.topic) m).getD (s.getOrCreate (routerIDFromTopic m.topic)).online
  known : namedBy parse m = some (routerIDFromTopic m.topic) ∨
    namedBy parse m = none ∧ s.lookup (routerIDFromTopic m.topic) ≠ none

theorem namedBy_topic {m : Message} {id : Str} (h : namedBy parse m = some id) :
    id = routerIDFromTopic m.topic := by
  unfold namedBy at h
  dsimp only at h
  split at h
  · cases h
  · split at h
    · obtain ⟨_, _, rfl⟩ := Option.map_eq_some_iff.mp h
      rfl
    · obtain ⟨_, _, rfl⟩ := Option.map_eq_some_iff.mp h
      rfl
    · obtain ⟨p, _, hp⟩ := Option.bind_eq_some_iff.mp h
      split at hp
      · exact (Option.some.inj hp).symm
      · cases hp

theorem onlineBy_none {m : Message} {id : Str} (h : m.sub ≠ .status ∨ namedBy parse m ≠ some id) :
    onlineBy parse id m = none :=
  if_neg fun ⟨hsub, hnamed⟩ => h.elim (· hsub) (· hnamed)

theorem status_cases {topic payload : Str} {now : Int} {s s' : Store}
    (h : handleStatus parse topic payload now s = .ok s') :
    s' = s ∧ namedBy parse ⟨.status, topic, payload, now⟩ = none ∨
      ∃ r, Writes parse ⟨.status, topic, payload, now⟩ s s' r := by
  unfold handleStatus at h
  dsimp only at h
  by_cases hid : routerIDFromTopic topic = []
  · rw [if_pos hid] at h
    exact Or.inl ⟨(Except.ok.inj h).symm, if_pos hid⟩
  · rw [if_neg hid] at h
    have hnamed : namedBy parse ⟨.status, topic, payload, now⟩ =
        (unmarshalStatus parse payload).map fun _ => routerIDFromTopic topic := if_neg hid
    cases hp : unmarshalStatus parse payload with
    | none =>
      rw [hp] at h hnamed
      exact Or.inl ⟨(Except.ok.inj h).symm, hnamed⟩
    | some p =>
      rw [hp] at h hnamed
      refine Or.inr ⟨_, (Except.ok.inj h).symm, rfl, ?_, Or.inl hnamed⟩
      rw [onlineBy, if_pos ⟨rfl, hnamed⟩]
      dsimp only
      rw [hp]
      rfl

theorem devices_cases {topic payload : Str} {now : Int} {s s' : Store}
    (h : handleDevices parse topic payload now s = .ok s') :
    s' = s ∧ namedBy parse ⟨.devices, topic, payload, now⟩ = none ∨
      ∃ r, Writes parse ⟨.devices, topic, payload, now⟩ s s' r := by
  unfold handleDevices at h
  dsimp only at h
  by_cases hid : routerIDFromTopic topic = []
  · rw [if_pos hid] at h
    exact Or.inl ⟨(Except.ok.inj h).symm, if_pos hid⟩
  · rw [if_neg hid] at h
    have hnamed : namedBy parse ⟨.devices, topic, payload, now⟩ =
        (unmarshalDevices parse payload).map fun _ => routerIDFromTopic topic := if_neg hid
    cases hp : unmarshalDevices parse payload with
    | none =>
      rw [hp] at h hnamed
      exact Or.inl ⟨(Except.ok.inj h).symm, hnamed⟩
    | some p =>
      rw [hp] at h hnamed
      unfold Store.replaceDevices at h
      dsimp only at h
      split at h
      · cases h
      · refine Or.inr ⟨_, (Except.ok.inj h).symm, rfl, ?_, Or.inl hnamed⟩
        rw [onlineBy_none (Or.inl (by simp))]
        rfl

theorem event_cases {topic payload : Str} {now : Int} {s s' : Store}
    (h : handleDeviceEvent parse topic payload now s = .ok s') :
    s' = s ∧ namedBy parse ⟨.event, topic, payload, now⟩ = none ∨
      ∃ r, Writes parse ⟨.event, topic, payload, now⟩ s s' r := by
  unfold handleDeviceEvent at h
  dsimp only at h
  by_cases hid : routerIDFromTopic topic = []
  · rw [if_pos hid] at h
    exact Or.inl ⟨(Except.ok.inj h).symm, if_pos hid⟩
  · rw [if_neg hid] at h
    have hnamed : namedBy parse ⟨.event, topic, payload, now⟩ =
        (unmarshalEvent parse payload).bind fun p =>
          if (p.event = "added".toList ∨ p.event = "changed".toList) ∧ p.device ≠ none then
            some (routerIDFromTopic topic) else none := if_neg hid
    cases hp : unmarshalEvent parse payload with
    | none =>
      rw [hp] at h hnamed
      exact Or.inl ⟨(Except.ok.inj h).symm, hnamed⟩
    | some p =>
      rw [hp, Option.bind_some] at hnamed
      rw [hp] at h
      dsimp only at h
      by_cases hstored : p.event = "added".toList ∨ p.event = "changed".toList
      · rw [if_pos hstored] at h
        by_cases hdevice : p.device ≠ none
        · rw [if_pos ⟨hstored, hdevice⟩] at hnamed
          rw [if_pos hdevice] at h
          unfold Store.upsertDevice at h
          split at h
          · cases h
          · refine Or.inr ⟨_, (Except.ok.inj h).symm, rfl, ?_, Or.inl hnamed⟩
            rw [onlineBy_none (Or.inl (by simp))]
            rfl
        · rw [if_neg fun hb => hdevice hb.2] at hnamed
          rw [if_neg hdevice] at h
          exact Or.inl ⟨(Except.ok.inj h).symm, hnamed⟩
      · rw [if_neg fun hb => hstored hb.1] at hnamed
        rw [if_neg hstored] at h
        split at h
        · split at h
          · cases hr : s.lookup (routerIDFromTopic topic) with
            | none =>
              rw [Store.removeDevice_none hr] at h
              exact Or.inl ⟨(Except.ok.inj h).symm, hnamed⟩
            | some r =>
              rw [Store.removeDevice_some hr] at h
              have hcreated : s.getOrCreate (routerIDFromTopic topic) = r := Store.getOrCreate_some hr
              refine Or.inr ⟨_, (Except.ok.inj h).symm, ?_, ?_, Or.inr ⟨hnamed, ?_⟩⟩
              · dsimp only
                rw [hcreated]
              · rw [onlineBy_none (Or.inl (by simp))]
                dsimp only
                rw [hcreated]
                rfl
              · dsimp only
                rw [hr]
                nofun
          · exact Or.inl ⟨(Except.ok.inj h).symm, hnamed⟩
        · exact Or.inl ⟨(Except.ok.inj h).symm, hnamed⟩

theorem deliver_cases {m : Message} {s s' : Store} (h : deliver parse m s = .ok s') :
    s' = s ∧ namedBy parse m = none ∨ ∃ r, Writes parse m s s' r := by
  obtain ⟨sub, topic, payload, now⟩ := m
  cases sub with
  | status => exact status_cases h
  | devices => exact devices_cases h
  | event => exact event_cases h

/-- The step: what is known stays known, and what the message names comes to it. -/
theorem deliver_known {m : Message} {s s' : Store} (h : deliver parse m s = .ok s') (id : Str) :
    s'.lookup id ≠ none ↔ s.lookup id ≠ none ∨ namedBy parse m = some id := by
  rcases deliver_cases h with ⟨rfl, hnone⟩ | ⟨r, hw⟩
  · rw [hnone]
    simp
  · rw [hw.stored]
    by_cases hid : id = routerIDFromTopic m.topic
    · subst hid
      rw [Finmap.lookup_insert]
      have hknown := hw.known.imp_right And.right
      exact iff_of_true nofun hknown.symm
    · rw [Finmap.lookup_insert_of_ne s hid]
      exact ⟨Or.inl, fun ho => ho.resolve_right fun hn => hid (namedBy_topic hn)⟩

theorem deliver_keyed {m : Message} {s s' : Store} (h : deliver parse m s = .ok s') (hs : Keyed s) :
    Keyed s' := by
  rcases deliver_cases h with ⟨rfl, _⟩ | ⟨r, hw⟩
  · exact hs
  · intro id r' hr'
    rw [hw.stored] at hr'
    by_cases hid : id = routerIDFromTopic m.topic
    · subst hid
      rw [Finmap.lookup_insert] at hr'
      rw [← Option.some.inj hr', hw.id, hs.getOrCreate]
    · rw [Finmap.lookup_insert_of_ne s hid] at hr'
      exact hs id r' hr'

theorem deliver_online {m : Message} {s s' : Store} (h : deliver parse m s = .ok s') (id : Str) :
    s'.onlineOf id = (onlineBy parse id m).getD (s.onlineOf id) := by
  rcases deliver_cases h with ⟨rfl, hnone⟩ | ⟨r, hw⟩
  · rw [onlineBy_none (Or.inr (by rw [hnone]; nofun))]
    rfl
  · rw [hw.stored, Store.onlineOf, Store.getOrCreate]
    by_cases hid : id = routerIDFromTopic m.topic
    · subst hid
      rw [Finmap.lookup_insert, Option.getD_some, hw.online]
      rfl
    · rw [Finmap.lookup_insert_of_ne s hid,
        onlineBy_none (Or.inr fun hn => hid (namedBy_topic hn))]
      rfl

/-- A run of messages. -/
theorem deliverAll_known (ms : List Message) {s s' : Store} (h : deliverAll parse ms s = .ok s')
    (hs : Keyed s) : Keyed s' ∧
      (∀ id, s'.lookup id ≠ none ↔ s.lookup id ≠ none ∨ ∃ m ∈ ms, namedBy parse m = some id) ∧
      ∀ id, s'.onlineOf id = Register.final (onlineBy parse id) (s.onlineOf id) ms := by
  induction ms generalizing s with
  | nil =>
    cases h
    exact ⟨hs, fun id => by simp, fun id => rfl⟩
  | cons m ms ih =>
    rw [deliverAll] at h
    cases hm : deliver parse m s with
    | error e => rw [hm] at h; cases h
    | ok t =>
      rw [hm] at h
      obtain ⟨hkeyed, hknown, honline⟩ := ih h (deliver_keyed hm hs)
      refine ⟨hkeyed, fun id => ?_, fun id => ?_⟩
      · rw [hknown, deliver_known hm, List.exists_mem_cons_iff, or_assoc]
      · rw [honline, deliver_online hm, Register.final_cons]

end Known

/-! ## The listing -/

/-- Sorted, and no id twice. -/
theorem strictly_sorted {out : List Router}
    (hsorted : out.Pairwise fun a b => decide (b.id < a.id) = false) (hnodup : (out.map Router.id).Nodup) :
    out.Pairwise fun a b => a.id < b.id := by
  have hne : out.Pairwise fun a b => a.id ≠ b.id := List.pairwise_map.mp hnodup
  exact (hsorted.and hne).imp fun ⟨hle, hne⟩ => lt_of_le_of_ne (not_lt.mp (of_decide_eq_false hle)) hne

/-- What the app says of a router in its listing. -/
structure Listed (s : Store) (out : List Router) : Prop where
  sorted : out.Pairwise fun a b => a.id < b.id
  entries : ∀ r, r ∈ out ↔ ∃ entry, s.lookup r.id = some entry ∧ r = entry.snapshot

theorem RoutersList.listed {s : Store} {out : List Router} (h : RoutersList s out) (hs : Keyed s) :
    Listed s out := by
  obtain ⟨visit, hvisit, hsort⟩ := h
  have hids : ((out.map Router.id : List Str) : Multiset Str) = s.entries.keys := by
    calc ((out.map Router.id : List Str) : Multiset Str)
        = (visit : Multiset Router).map Router.id := by
          rw [Multiset.map_coe, Multiset.coe_eq_coe]
          exact hsort.perm.map _
      _ = s.entries.map fun e => e.2.snapshot.id := by rw [hvisit, Multiset.map_map]; rfl
      _ = s.entries.keys := Multiset.map_congr rfl fun e he => hs e.1 e.2 (Finmap.lookup_eq_some_iff.mpr he)
  refine ⟨strictly_sorted hsort.ordered ?_, fun r => ?_⟩
  · rw [← Multiset.coe_nodup, hids]
    exact s.nodupKeys.nodup_keys
  · rw [hsort.mem_iff, ← Multiset.mem_coe, hvisit, Multiset.mem_map]
    constructor
    · rintro ⟨e, he, rfl⟩
      have hlookup := Finmap.lookup_eq_some_iff.mpr he
      have hid : e.2.snapshot.id = e.1 := hs e.1 e.2 hlookup
      exact ⟨e.2, by rwa [hid], rfl⟩
    · rintro ⟨entry, hlookup, heq⟩
      exact ⟨⟨r.id, entry⟩, Finmap.lookup_eq_some_iff.mp hlookup, heq.symm⟩

/-! ## The answer -/

/-- The request of `loadRouters`. -/
def routersRequest (cookie : Option Str) : Incoming where
  method := "GET".toList
  target := "/api/routers".toList
  cookie := cookie

section Answer

variable {c : Crypto} {a : Auth} {broker : Command → Option Str} {parse : Str → Option Json}

theorem handleHttp_routers {now : Int} {stamp : Str} {ranging : Ranging} {s : Store} {cookie : Option Str}
    (huser : a.currentUser c now ⟨[], cookie⟩ ≠ []) :
    handleHttp c a broker now stamp ranging s (routersRequest cookie) =
      .ok (.answer (.json ⟨200, routersBody (ranging.routers s)⟩)) := by
  have hu : Url.parse (routersRequest cookie).target = some ⟨"/api/routers".toList, []⟩ := rfl
  rw [handleHttp_app hu rfl huser]
  rfl

/-- The messages of a run. -/
def messageOf : SiteEvent → Option Message
  | .message m => some m
  | _ => none

/-- Only messages change the store. -/
theorem step_store {s s' : Site} {e : SiteEvent} {outs : List Out}
    (h : s.step c a broker parse e = some (s', outs)) :
    deliverAll parse (messageOf e).toList s.store = .ok s'.store := by
  cases Site.steps_of_step h with
  | failed _ => rfl
  | @http _ _ _ _ o _ => cases o <;> rfl
  | lookup _ => rfl
  | respond _ => rfl
  | message hm => exact (deliverAll_cons_ok hm).trans rfl
  | store _ => rfl
  | finish _ => rfl

theorem deliverAll_append {ms ns : List Message} {s t : Store} (h : deliverAll parse ms s = .ok t) :
    deliverAll parse (ms ++ ns) s = deliverAll parse ns t := by
  induction ms generalizing s with
  | nil =>
    cases h
    rfl
  | cons m ms ih =>
    rw [deliverAll] at h
    rw [List.cons_append, deliverAll]
    split at h
    · cases h
    · exact ih h

theorem run_store {events : List SiteEvent} {s : Site} (h : Site.run c a broker parse events {} = some s) :
    deliverAll parse (events.filterMap messageOf) ∅ = .ok s.store := by
  induction events using List.reverseRecOn generalizing s with
  | nil =>
    cases h
    rfl
  | append_singleton es e ih =>
    obtain ⟨t, outs, ht, hstep⟩ := Site.run_concat h
    have hlast : [e].filterMap messageOf = (messageOf e).toList := by
      rw [List.filterMap_cons]
      cases messageOf e <;> rfl
    rw [List.filterMap_append, deliverAll_append (ih ht), hlast]
    exact step_store hstep

end Answer

/-- **The routers.** In every run, who is logged in is answered with the routers that were ever heard of,
    each once and in the order of the ids, and of each whether its last status was online. -/
theorem routers_listed (c : Crypto) (a : Auth) (broker : Command → Option Str) (parse : Str → Option Json)
    (events : List SiteEvent) {s : Site} (hrun : Site.run c a broker parse events {} = some s) (now : Int)
    (stamp : Str) (ranging : Ranging) (cookie : Option Str) (huser : a.currentUser c now ⟨[], cookie⟩ ≠ []) :
    ∃ out, handleHttp c a broker now stamp ranging s.store (routersRequest cookie) =
        .ok (.answer (.json ⟨200, routersBody out⟩)) ∧
      out.Pairwise (fun x y => x.id < y.id) ∧
      (∀ id, (∃ r ∈ out, r.id = id) ↔ ∃ m ∈ events.filterMap messageOf, namedBy parse m = some id) ∧
      ∀ r ∈ out, r.online = Register.final (onlineBy parse r.id) false (events.filterMap messageOf) := by
  obtain ⟨hkeyed, hknown, honline⟩ := deliverAll_known _ (run_store hrun) Keyed.empty
  obtain ⟨hsorted, hentries⟩ := (ranging.routers_list s.store).listed hkeyed
  refine ⟨ranging.routers s.store, handleHttp_routers huser, hsorted, fun id => ?_, fun r hr => ?_⟩
  · have hempty : (∅ : Store).lookup id = none := Finmap.lookup_empty id
    rw [← or_iff_right (b := ∃ m ∈ events.filterMap messageOf, namedBy parse m = some id)
      (not_not.mpr hempty), ← hknown]
    constructor
    · rintro ⟨r, hr, rfl⟩
      obtain ⟨entry, hlookup, _⟩ := (hentries r).mp hr
      rw [hlookup]
      nofun
    · intro hne
      obtain ⟨entry, hlookup⟩ := Option.ne_none_iff_exists'.mp hne
      have hid : entry.id = id := hkeyed id entry hlookup
      exact ⟨entry.snapshot, (hentries _).mpr ⟨entry, by rwa [← hid] at hlookup, rfl⟩, hid⟩
  · obtain ⟨entry, hlookup, heq⟩ := (hentries r).mp hr
    have hempty : (∅ : Store).onlineOf r.id = false := rfl
    rw [← hempty, ← honline, Store.onlineOf, Store.getOrCreate_some hlookup, heq]
    rfl

/-- Router `a` goes offline. -/
def aOffline : Message := ⟨.status, "netparent/a/status".toList, "\x7b\"online\":false\x7d".toList, 9⟩

def rosterEvents : List SiteEvent := [.message tvMessage, .message aOnline, .message aOffline]

theorem rosterEvents_run : ∃ s, Site.run plainCrypto plainAuth (fun _ => none) Json.read rosterEvents {} =
    some s := by
  have hstatus : ∀ (m : Message) (online : Bool), m.sub = .status → m.topic = "netparent/a/status".toList →
      Json.read m.payload = some (.obj [("online".toList, .bool online)]) →
      ∀ store, ∃ store', deliver Json.read m store = .ok store' := by
    rintro ⟨_, _, payload, now⟩ online rfl rfl hread store
    rw [deliver_of_parse hread]
    exact ⟨_, rfl⟩
  obtain ⟨s₁, h₁⟩ := hstatus aOnline true rfl rfl (Json.read_of_print rfl (by decide +kernel))
    (storeOf tvRouter)
  obtain ⟨s₂, h₂⟩ := hstatus aOffline false rfl rfl (Json.read_of_print rfl (by decide +kernel)) s₁
  have hone : Site.step plainCrypto plainAuth (fun _ => none) Json.read {} (.message tvMessage) =
      some ({ store := storeOf tvRouter }, []) := Site.step_message deliver_tvMessage
  have htwo : Site.step plainCrypto plainAuth (fun _ => none) Json.read { store := storeOf tvRouter }
      (.message aOnline) = some ({ store := s₁ }, []) := Site.step_message h₁
  have hthree : Site.step plainCrypto plainAuth (fun _ => none) Json.read { store := s₁ }
      (.message aOffline) = some ({ store := s₂ }, []) := Site.step_message h₂
  exact ⟨_, (Site.run_cons hone).trans ((Site.run_cons htwo).trans (Site.run_cons hthree))⟩

/-- Two routers, of which one came and went. -/
theorem routers_listed_gone : ∃ ranging : Ranging, ∃ s out, Site.run plainCrypto plainAuth (fun _ => none)
      Json.read rosterEvents {} = some s ∧
    handleHttp plainCrypto plainAuth (fun _ => none) (3600 * 10 ^ 9) [] ranging s.store
      (routersRequest plainPage.cookie) = .ok (.answer (.json ⟨200, routersBody out⟩)) ∧
    (∃ r ∈ out, r.id = "router-1".toList) ∧ (∃ r ∈ out, r.id = ['a']) ∧
    ∀ r ∈ out, r.id = ['a'] → r.online = false := by
  obtain ⟨ranging⟩ := exists_ranging
  obtain ⟨s, hrun⟩ := rosterEvents_run
  obtain ⟨out, hanswer, _, hids, honline⟩ := routers_listed plainCrypto plainAuth (fun _ => none) Json.read
    rosterEvents hrun (3600 * 10 ^ 9) [] ranging plainPage.cookie (by decide +kernel)
  refine ⟨ranging, s, out, hrun, hanswer, (hids _).mpr ⟨tvMessage, by simp [rosterEvents, messageOf],
    by decide +kernel⟩, (hids _).mpr ⟨aOnline, by simp [rosterEvents, messageOf], by decide +kernel⟩,
    fun r hr hid => ?_⟩
  rw [honline r hr, hid]
  decide +kernel

end Netparent.Web
