/-
  The devices of an answer, and where their vendors come from.

  An answer is put together while messages, other requests and fetches go on. What it says of a router is
  still what the store had when its own request came, device by device in the order of the listing, but for
  the vendors: each is empty or what the API has replied, during this run, for the OUI of the device
  (`answers_told`). What a router writes into the field itself is never shown.
-/
import Netparent.Web.Gate

namespace Netparent.Web

open ServeMux (Url)

section Vendor

variable (c : Crypto) (a : Auth) (broker : Command → Option Str) (parse : Str → Option Json)

/-- In a run the API has replied `vendor` to a fetch for OUI `k`. -/
def Told (events : List SiteEvent) (k vendor : Str) : Prop :=
  ∃ before j reply after t mac, events = before ++ .store j reply :: after ∧
    Site.run c a broker parse before {} = some t ∧
    t.resolver.fetches[j]? = some ⟨k, mac, .calling⟩ ∧ callAPI reply = some vendor

/-- The vendor of a device that is shown is empty or has been told. -/
def ToldVendor (events : List SiteEvent) (shown : Device) : Prop :=
  shown.vendor = [] ∨ ∃ k, ouiKey shown.mac = some k ∧ Told c a broker parse events k shown.vendor

/-- `shown` is `listed` with such a vendor. -/
structure VendorTold (events : List SiteEvent) (shown listed : Device) : Prop where
  same : ButVendor shown listed
  told : ToldVendor c a broker parse events shown

/-- What the answer to `q` shows. -/
structure Shows (events : List SiteEvent) (q : Arrival) (router : Router) (devices : List Device) : Prop where
  /-- The router is the one that `q` asks for, as the store has it when `q` comes. -/
  asked : ∃ u id, Url.parse q.request.target = some u ∧ AsksDevices q.request u id ∧
    q.site.store.router id = .ok (some router)
  /-- The devices are those listed for `q`, with the vendors as told. -/
  listing : ∃ listing, q.outcome c a broker = .ok (.listed router listing) ∧
    DevicesList router.devices listing ∧ List.Forall₂ (VendorTold c a broker parse events) devices listing

/-- The cache has what was told, and the marker where nothing was. -/
def CacheTold (events : List SiteEvent) (r : Resolver) : Prop :=
  ∀ k v, r.cache.lookup k = some v → ∃ vendor, Told c a broker parse events k vendor ∧
    v = if vendor = [] then unknownMarker else vendor

structure SiteGood (events : List SiteEvent) (s : Site) : Prop where
  cache : CacheTold c a broker parse events s.resolver
  serving : ∀ sv ∈ s.serving, ∀ d ∈ sv.done, ToldVendor c a broker parse events d

variable {c a broker parse}

/-! ## What was told stays told -/

theorem Told.append {events : List SiteEvent} {k vendor : Str}
    (h : Told c a broker parse events k vendor) (more : List SiteEvent) :
    Told c a broker parse (events ++ more) k vendor := by
  obtain ⟨before, j, reply, after, t, mac, rfl, hrest⟩ := h
  exact ⟨before, j, reply, after ++ more, t, mac, by rw [List.append_assoc]; rfl, hrest⟩

theorem ToldVendor.append {events : List SiteEvent} {shown : Device}
    (h : ToldVendor c a broker parse events shown) (more : List SiteEvent) :
    ToldVendor c a broker parse (events ++ more) shown :=
  h.imp_right fun ⟨k, hk, ht⟩ => ⟨k, hk, ht.append more⟩

theorem CacheTold.append {events : List SiteEvent} {r : Resolver} (h : CacheTold c a broker parse events r)
    (more : List SiteEvent) : CacheTold c a broker parse (events ++ more) r := by
  intro k v hv
  obtain ⟨vendor, htold, heq⟩ := h k v hv
  exact ⟨vendor, htold.append more, heq⟩

theorem SiteGood.append {events : List SiteEvent} {s : Site} (h : SiteGood c a broker parse events s)
    (more : List SiteEvent) : SiteGood c a broker parse (events ++ more) s :=
  ⟨h.cache.append more, fun sv hsv d hd => (h.serving sv hsv d hd).append more⟩

/-! ## The steps -/

/-- A look-up reads the cache and does not change it. -/
theorem lookup_cache (r : Resolver) (mac : Str) : (r.lookup mac).2.cache = r.cache := by
  unfold Resolver.lookup
  split
  · rfl
  · next key _ =>
    change (r.schedule key mac).cache = r.cache
    rcases r.schedule_cases key mac with ⟨_, heq⟩ | ⟨_, heq⟩
    · rw [heq]
    · rw [heq]

/-- What a look-up gives was told. -/
theorem lookup_told {events : List SiteEvent} {r : Resolver} (h : CacheTold c a broker parse events r)
    (d : Device) : ToldVendor c a broker parse events { d with vendor := (r.lookup d.mac).1 } := by
  unfold ToldVendor
  dsimp only
  cases hkey : ouiKey d.mac with
  | none => exact Or.inl (by rw [Resolver.lookup_malformed hkey])
  | some k =>
    rw [Resolver.lookup_eq hkey]
    dsimp only
    cases hcache : r.cache.lookup k with
    | none => exact Or.inl (if_neg (by decide))
    | some v =>
      rw [Option.getD_some]
      by_cases hmarker : v = unknownMarker
      · exact Or.inl (if_pos hmarker)
      · obtain ⟨vendor, htold, rfl⟩ := h k v hcache
        have hne : ¬ vendor = [] := fun he => hmarker (if_pos he)
        rw [if_neg hne] at hmarker ⊢
        rw [if_neg hmarker]
        exact Or.inr ⟨k, rfl, htold⟩

/-- An outcome adds an answer of which nothing is done, if any. -/
theorem apply_good {events : List SiteEvent} {s : Site} (hg : SiteGood c a broker parse events s)
    (o : Outcome) : SiteGood c a broker parse events (o.apply s).1 := by
  cases o with
  | answer ans => exact hg
  | toggled res cmd => exact hg
  | listed router devices =>
    refine ⟨hg.cache, fun sv hsv => ?_⟩
    rcases List.mem_append.mp hsv with hsv | hsv
    · exact hg.serving sv hsv
    · rw [List.mem_singleton.mp hsv]
      exact nofun

/-- A result is stored: this is when the API has told it. -/
theorem store_good {before : List SiteEvent} {s : Site} (hrun : Site.run c a broker parse before {} = some s)
    (hc : CacheTold c a broker parse before s.resolver) {j : Nat} {reply : Reply} {r : Resolver}
    (hr : s.resolver.store j reply = some r) :
    CacheTold c a broker parse (before ++ [.store j reply]) r := by
  have hold := hc.append [SiteEvent.store j reply]
  obtain ⟨key, mac, hfetch, _, _, hkey, hother⟩ := Resolver.store_cases hr
  intro k v hv
  by_cases hk : k = key
  · subst hk
    rw [hkey] at hv
    cases hreply : callAPI reply with
    | none =>
      rw [hreply] at hv
      exact hold k v hv
    | some vendor =>
      rw [hreply] at hv
      exact ⟨vendor, ⟨before, j, reply, [], s, mac, rfl, hrun, hfetch, hreply⟩, (Option.some.inj hv).symm⟩
  · rw [hother k hk] at hv
    exact hold k v hv

/-- One step. -/
theorem step_good {before : List SiteEvent} {e : SiteEvent} {s s' : Site} {outs : List Out}
    (hrun : Site.run c a broker parse before {} = some s) (hg : SiteGood c a broker parse before s)
    (hstep : s.step c a broker parse e = some (s', outs)) :
    SiteGood c a broker parse (before ++ [e]) s' := by
  have hold := hg.append [e]
  cases Site.steps_of_step hstep with
  | failed _ => exact hold
  | http _ => exact apply_good hold _
  | @lookup i router done todo d hi =>
    refine ⟨fun k v hv => hold.cache k v (by rwa [lookup_cache] at hv), fun sv hsv => ?_⟩
    rcases List.mem_or_eq_of_mem_set hsv with hsv | rfl
    · exact hold.serving sv hsv
    · intro d' hd'
      rcases List.mem_append.mp hd' with hd' | hd'
      · exact hold.serving _ (List.mem_of_getElem? hi) d' hd'
      · rw [List.mem_singleton.mp hd']
        exact lookup_told hold.cache d
  | respond _ => exact ⟨hold.cache, fun sv hsv => hold.serving sv (List.mem_of_mem_eraseIdx hsv)⟩
  | message _ => exact ⟨hold.cache, hold.serving⟩
  | store hr => exact ⟨store_good hrun hg.cache hr, hold.serving⟩
  | finish hr =>
    obtain ⟨key, mac, result, _, rfl⟩ := Resolver.finish_cases hr
    exact ⟨hold.cache, hold.serving⟩

/-- A run. -/
theorem run_good {events : List SiteEvent} {s : Site} (hrun : Site.run c a broker parse events {} = some s) :
    SiteGood c a broker parse events s := by
  induction events using List.reverseRecOn generalizing s with
  | nil =>
    cases hrun
    exact ⟨fun k v hv => absurd hv (by rw [Finmap.lookup_empty]; nofun), nofun⟩
  | append_singleton es e ih =>
    obtain ⟨t, outs, ht, hstep⟩ := Site.run_concat hrun
    exact step_good ht (ih ht) hstep

theorem not_hasNil_of_router {s : Store} {id : Str} {r : Router} (h : s.router id = .ok (some r)) :
    ¬ HasNil r.devices := by
  have hlookup := Store.lookup_of_router h
  unfold Store.router at h
  rw [hlookup] at h
  dsimp only at h
  split at h
  · cases h
  · assumption

/-- **Devices and vendors.** In every run, however requests, messages and fetches take turns, an answer with
    devices is the one to the request at its place: it shows the router that this request asks for as the
    store had it when the request came, with vendors the API has told. -/
theorem answers_told (c : Crypto) (a : Auth) (broker : Command → Option Str) (parse : Str → Option Json)
    (events : List SiteEvent) {s s' : Site} (hrun : Site.run c a broker parse events {} = some s) (i : Nat)
    {outs : List Out} (hstep : s.step c a broker parse (.respond i) = some (s', outs)) :
    ∃ q router devices, (pending c a broker parse events)[i]? = some q ∧ q.In c a broker parse events ∧
      outs = [.answer (.json ⟨200, devicesBody router devices⟩)] ∧
      Shows c a broker parse events q router devices := by
  cases Site.steps_of_step hstep with
  | @respond i router done hi =>
    obtain ⟨q, hq, hin, listing, houtcome, hsame⟩ := request_at hrun hi
    rw [List.append_nil] at houtcome
    have htold := (run_good hrun).serving _ (List.mem_of_getElem? hi)
    obtain ⟨u, hu, _, _, happ⟩ := handleHttp_private houtcome rfl
    obtain ⟨id, hasks, hrouter, hlisting⟩ := handleApp_devices happ
    refine ⟨q, router, done, hq, hin, rfl, ⟨u, id, hu, hasks, hrouter⟩, listing, houtcome, ?_, ?_⟩
    · rw [hlisting]
      exact q.ranging.devices_list _ (not_hasNil_of_router hrouter)
    · exact ((List.forall₂_and_left _ _).mpr ⟨htold, hsame⟩).imp fun _ _ hd => ⟨hd.2, hd.1⟩

end Vendor

/-! ## Two answers -/

def acmeReply : Reply := .response 200 (some { success := true, found := true, company := "Acme".toList })

def withAcme (d : Device) : Device := { d with vendor := "Acme".toList }

/-- A look-up for the second answer starts a fetch, which is in time for its other device and for the first
    answer. That one goes out. -/
def vendorEvents (r₁ r₂ : Ranging) : List SiteEvent :=
  sessionEvents r₁ r₂ ++ [.lookup 1, .store 0 acmeReply, .lookup 1, .lookup 0, .respond 0]

/-- The second answer is in the first place now. -/
def vendorSite : Site where
  store := storeOf bothRouter
  resolver := ⟨Finmap.insert "020000".toList "Acme".toList ∅, Finmap.insert "020000".toList () ∅,
    [⟨"020000".toList, nasShown.mac, .done (some "Acme".toList)⟩]⟩
  serving := [⟨bothRouter, [nasShown, withAcme (tvShown true)], []⟩]

theorem vendorSite_reached {r₁ r₂ : Ranging} (h₁ : r₁.devices tvRouter.devices = [tvShown false])
    (h₂ : r₂.devices bothRouter.devices = [nasShown, tvShown true]) :
    Site.run plainCrypto plainAuth (fun _ => none) Json.read (vendorEvents r₁ r₂) {} = some vendorSite := by
  rw [vendorEvents, Site.run_append (sessionSite_reached h₁ h₂)]
  rfl

/-- What goes out next is the second answer. -/
theorem answers_told_second : ∃ r₁ r₂ s' outs, vendorSite.step plainCrypto plainAuth (fun _ => none) Json.read
      (.respond 0) = some (s', outs) ∧
    outs = [.answer (.json ⟨200, devicesBody bothRouter [nasShown, withAcme (tvShown true)]⟩)] ∧
    ∃ q router devices,
      (pending plainCrypto plainAuth (fun _ => none) Json.read (vendorEvents r₁ r₂))[0]? = some q ∧
      q.In plainCrypto plainAuth (fun _ => none) Json.read (vendorEvents r₁ r₂) ∧
      outs = [.answer (.json ⟨200, devicesBody router devices⟩)] ∧
      Shows plainCrypto plainAuth (fun _ => none) Json.read (vendorEvents r₁ r₂) q router devices := by
  obtain ⟨r₁, h₁⟩ := exists_ranging_listing tv_list
  obtain ⟨r₂, h₂⟩ := exists_ranging_listing both_list
  exact ⟨r₁, r₂, _, _, rfl, rfl, answers_told plainCrypto plainAuth (fun _ => none) Json.read
    (vendorEvents r₁ r₂) (vendorSite_reached h₁ h₂) 0 rfl⟩

end Netparent.Web
