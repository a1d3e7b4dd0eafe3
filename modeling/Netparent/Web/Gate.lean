/-
  What goes out of the web app has been asked for by someone who is logged in.

  Behind every event that lets something out there is one request, its own or the one whose answer it carries
  on (`requestBehind`). `LetIn` is about the cookie of that request: it carries the payload of a login before
  it that was accepted and has not expired. `Asked` is about its method and path: the command, the address of
  the fetch or the answer that goes out is the one that the request asks for (`outs_authorized`).
-/
import Netparent.Web.Pending
import Netparent.Web.Toggle

namespace Netparent.Web

open ServeMux (Url findHandler segmentsOf Matches)
open SliceSort (IsSort)

/-! ## Who is logged in -/

/-- A request as a visit of the login. -/
def visitOf : SiteEvent → Option (Int × Auth.Visit)
  | .http now _ _ r => (Url.parse r.target).map fun u =>
      (now, match findHandler mux r.method u with
        | .handler .loginSubmit _ => .login r.form
        | .handler .logout _ => .logout
        | _ => .page ⟨u.path, r.cookie⟩)
  | _ => none

section Gate

variable {c : Crypto} {a : Auth} {broker : Command → Option Str} {parse : Str → Option Json}

/-- The cookie carries what a login at `t₀` has signed. -/
def CarriesLogin (c : Crypto) (a : Auth) (cookie : Option Str) (t₀ : Int) : Prop :=
  ∃ value encoded, cookie = some value ∧ splitAt2 '.' value = some (encoded, a.sign c (a.payload t₀)) ∧
    Base64.decode encoded = some (a.payload t₀)

/-- The sender of a request for `u` is logged in. -/
structure Arrival.LetIn (c : Crypto) (a : Auth) (q : Arrival) (u : Url) : Prop where
  url : Url.parse q.request.target = some u
  passes : a.requireLogin c q.now ⟨u.path, q.request.cookie⟩ = .next
  user : a.currentUser c q.now ⟨u.path, q.request.cookie⟩ = a.username
  /-- Its own cookie is one of a login that was accepted and has not expired. -/
  login : ∃ t₀ user pass, (t₀, Auth.Visit.login (some (user, pass))) ∈ q.before.filterMap visitOf ∧
    a.verifyPassword c user pass = true ∧ t₀ ≤ q.now ∧ unix q.now < a.expiry t₀ ∧
    CarriesLogin c a q.request.cookie t₀

theorem isRun_append_left {xs ys : List (Int × Auth.Visit)} (h : Auth.IsRun c a (xs ++ ys)) :
    Auth.IsRun c a xs where
  ordered := (List.pairwise_append.mp h.ordered).1
  unforged before t r after heq := h.unforged before t r (after ++ ys) (by rw [heq, List.append_assoc]; rfl)

/-- Whoever is taken for a user has logged in. -/
theorem Arrival.letIn {q : Arrival} {u : Url} (hu : Url.parse q.request.target = some u)
    (hrun : Auth.IsRun c a ((q.before ++ [q.event]).filterMap visitOf))
    (hvisit : visitOf q.event = some (q.now, .page ⟨u.path, q.request.cookie⟩))
    (huser : a.currentUser c q.now ⟨u.path, q.request.cookie⟩ ≠ []) : q.LetIn c a u := by
  have hvisits : (q.before ++ [q.event]).filterMap visitOf =
      q.before.filterMap visitOf ++ (q.now, .page ⟨u.path, q.request.cookie⟩) :: [] := by
    rw [List.filterMap_append, List.filterMap_cons_some hvisit, List.filterMap_nil]
  obtain ⟨value, hvalue, hparse⟩ := Auth.parse_of_currentUser huser
  obtain ⟨encoded, payload, text, n, hcut, hdecode, hpayload, hn, hlt⟩ := Auth.parse_eq_ok.mp hparse
  have hsigned := hrun.unforged _ q.now ⟨u.path, q.request.cookie⟩ [] hvisits value encoded _ hvalue hcut
    payload rfl
  obtain ⟨v, hv, hby⟩ := List.mem_filterMap.mp hsigned
  obtain ⟨t₀, user, pass, rfl, hverify, rfl⟩ := Auth.signedBy_eq_some hby
  obtain ⟨hname, rfl⟩ := Auth.payload_inv hpayload hn
  have horder := hrun.ordered
  rw [hvisits, List.pairwise_append] at horder
  exact ⟨hu, Auth.requireLogin_eq_next.mpr huser, hname, t₀, user, pass, hv, hverify,
    horder.2.2 _ hv _ List.mem_cons_self, hlt, value, encoded, hvalue, hcut, hdecode⟩

/-! ## What the handlers let out -/

/-- The methods of a `GET` pattern. -/
def IsGet (method : Str) : Prop := method = "GET".toList ∨ method = "HEAD".toList

/-- The devices of router `id` are asked for. -/
structure AsksDevices (r : Incoming) (u : Url) (id : Str) : Prop where
  method : IsGet r.method
  segments : segmentsOf u.escapedPath = ["api".toList, "routers".toList, id, "devices".toList]

/-- A device is to be blocked, or unblocked. -/
structure AsksToggle (r : Incoming) (u : Url) (id mac : Str) (block : Bool) : Prop where
  method : r.method = "POST".toList
  segments : segmentsOf u.escapedPath =
    ["api".toList, "routers".toList, id, "devices".toList, mac, actionOf block]

/-- The command to block or unblock an address. -/
def commandFor (stamp id mac : Str) (block : Bool) : Command where
  topic := "netparent/".toList ++ id ++ "/cmd/".toList ++ actionOf block
  body := .obj [("mac".toList, .str (mac.map tolower)), ("req_id".toList, .str ("web-".toList ++ stamp))]

/-- What a request for `u` has asked for, of the app as it found it. -/
inductive Asked (a : Auth) (broker : Command → Option Str) (q : Arrival) (u : Url) : Out → Prop
  | dashboard (hget : IsGet q.request.method) (hpath : u.path = ['/']) :
      Asked a broker q u (.answer (.dashboard a.username))
  | routers (hget : IsGet q.request.method)
      (hsegments : segmentsOf u.escapedPath = ["api".toList, "routers".toList]) :
      Asked a broker q u (.answer (handleAPIRouters q.ranging q.site.store))
  | unknownRouter {id : Str} (hasks : AsksDevices q.request u id) (hnone : q.site.store.router id = .ok none) :
      Asked a broker q u
        (.answer (.json ⟨404, .obj [("error".toList, .str "router not found".toList)]⟩))
  /-- The vendors are not those of the store. -/
  | devices {id : Str} {router : Router} {devices : List Device} (hasks : AsksDevices q.request u id)
      (hrouter : q.site.store.router id = .ok (some router))
      (hlisting : List.Forall₂ ButVendor devices (q.ranging.devices router.devices)) :
      Asked a broker q u (.answer (.json ⟨200, devicesBody router devices⟩))
  | toggled {id mac : Str} {block : Bool} (hasks : AsksToggle q.request u id mac block) :
      Asked a broker q u (.answer (.json (doBlockUnblock broker q.stamp id mac block).1))
  | command {id mac : Str} {block : Bool} (hasks : AsksToggle q.request u id mac block)
      (hmac : macRegexp (mac.map tolower) = true) :
      Asked a broker q u (.command (commandFor q.stamp id mac block))
  | fetch {id : Str} {router : Router} {d : Device} (hasks : AsksDevices q.request u id)
      (hrouter : q.site.store.router id = .ok (some router))
      (hd : d ∈ q.ranging.devices router.devices) : Asked a broker q u (.fetch d.mac)

theorem publishCmd_some {stamp id action mac : Str} {cmd : Command}
    (h : (publishCmd broker stamp id action mac).2 = some cmd) :
    cmd = ⟨"netparent/".toList ++ id ++ "/cmd/".toList ++ action,
      .obj [("mac".toList, .str mac), ("req_id".toList, .str ("web-".toList ++ stamp))]⟩ := by
  unfold publishCmd at h
  split at h
  · cases h
  · exact (Option.some.inj h).symm

theorem doBlockUnblock_some {stamp id mac : Str} {block : Bool} {cmd : Command}
    (h : (doBlockUnblock broker stamp id mac block).2 = some cmd) :
    macRegexp (mac.map tolower) = true ∧ cmd = commandFor stamp id mac block := by
  unfold doBlockUnblock at h
  dsimp only at h
  split at h
  · cases h
  · next hmac =>
    refine ⟨Bool.not_eq_false _ ▸ hmac, ?_⟩
    cases block with
    | true =>
      rw [if_pos rfl] at h
      split at h <;> exact publishCmd_some h
    | false =>
      rw [if_neg Bool.false_ne_true] at h
      split at h <;> exact publishCmd_some h

/-- The segments a pattern of `authMux` with wildcards leaves open. -/
theorem matches_devices {rest : List ServeMux.Segment} {ss vs : List Str}
    (h : Matches (devicesPattern rest) ss vs) : ∃ id ss' vs', ss =
      "api".toList :: "routers".toList :: id :: "devices".toList :: ss' ∧ vs = id :: vs' ∧
        id ≠ ['/'] ∧ Matches rest ss' vs' := by
  cases h with
  | literal _ h => cases h with
    | literal _ h => cases h with
      | wildcard hid h => cases h with
        | literal _ h => exact ⟨_, _, _, rfl, rfl, hid, h⟩

theorem matches_toggle {action : Str} {ss vs : List Str}
    (h : Matches (devicesPattern [.wildcard, .literal action]) ss vs) : ∃ id mac, ss =
      ["api".toList, "routers".toList, id, "devices".toList, mac, action] ∧ vs = [id, mac] ∧
        id ≠ ['/'] ∧ mac ≠ ['/'] := by
  obtain ⟨id, ss', vs', rfl, rfl, hid, hrest⟩ := matches_devices h
  cases hrest with
  | wildcard hmac hlast => cases hlast with
    | literal _ hend =>
      cases hend
      exact ⟨id, _, rfl, rfl, hid, hmac⟩

theorem matches_routers {ss vs : List Str}
    (h : Matches [.literal "api".toList, .literal "routers".toList] ss vs) :
    ss = ["api".toList, "routers".toList] := by
  cases h with
  | literal _ h => cases h with
    | literal _ h =>
      cases h
      rfl

/-- The handlers behind the login are found at their paths only. -/
theorem authMux_sound {method : Str} {u : Url} {h : AppEndpoint} {values : List Str}
    (hfound : findHandler authMux method u = .handler h values) :
    ∃ r ∈ authMux, r.handler = h ∧ r.takes method ∧ Matches r.segments (segmentsOf u.escapedPath) values :=
  (ServeMux.findHandler_sound hfound).2

theorem found_toggle {method : Str} {u : Url} {values : List Str} {block : Bool}
    (hfound : findHandler authMux method u =
      .handler (if block then .apiBlock else .apiUnblock) values) :
    method = "POST".toList ∧ ∃ id mac, values = [id, mac] ∧ segmentsOf u.escapedPath =
      ["api".toList, "routers".toList, id, "devices".toList, mac, actionOf block] ∧
        id ≠ ['/'] ∧ mac ≠ ['/'] := by
  obtain ⟨r, hr, hhandler, htakes, hmatch⟩ := authMux_sound hfound
  have hpost : ∀ r : ServeMux.Route AppEndpoint, r.method = some "POST".toList → r.takes method →
      method = "POST".toList := by
    rintro r hm (ht | ⟨-, ht⟩ | ht)
    · rw [hm] at ht
      exact (Option.some.inj ht).symm
    · rw [hm] at ht
      exact absurd (Option.some.inj ht) (by decide)
    · rw [hm] at ht
      cases ht
  simp only [authMux, List.mem_cons, List.not_mem_nil, or_false] at hr
  rcases hr with rfl | rfl | rfl | rfl | rfl <;> cases block <;> first
    | exact absurd hhandler (by decide)
    | obtain ⟨id, mac, hss, hvs, hid, hmac⟩ := matches_toggle hmatch
      exact ⟨hpost _ rfl htakes, id, mac, hvs, hss, hid, hmac⟩

theorem isGet_of_takes {η : Type} {r : ServeMux.Route η} (hr : r.method = some "GET".toList) {method : Str}
    (h : r.takes method) : IsGet method := by
  unfold ServeMux.Route.takes at h
  rw [hr] at h
  rcases h with ht | ⟨ht, -⟩ | ht
  · exact Or.inl (Option.some.inj ht).symm
  · exact Or.inr ht
  · cases ht

theorem found_dashboard {method : Str} {u : Url} {values : List Str}
    (hfound : findHandler authMux method u = .handler .dashboard values) : IsGet method := by
  obtain ⟨r, hr, hhandler, htakes, -⟩ := authMux_sound hfound
  simp only [authMux, List.mem_cons, List.not_mem_nil, or_false] at hr
  rcases hr with rfl | rfl | rfl | rfl | rfl <;> first
    | exact absurd hhandler (by decide)
    | exact isGet_of_takes rfl htakes

theorem found_routers {method : Str} {u : Url} {values : List Str}
    (hfound : findHandler authMux method u = .handler .apiRouters values) :
    IsGet method ∧ segmentsOf u.escapedPath = ["api".toList, "routers".toList] := by
  obtain ⟨r, hr, hhandler, htakes, hmatch⟩ := authMux_sound hfound
  simp only [authMux, List.mem_cons, List.not_mem_nil, or_false] at hr
  rcases hr with rfl | rfl | rfl | rfl | rfl <;> first
    | exact absurd hhandler (by decide)
    | exact ⟨isGet_of_takes rfl htakes, matches_routers hmatch⟩

theorem found_devices {method : Str} {u : Url} {values : List Str}
    (hfound : findHandler authMux method u = .handler .apiDevices values) :
    IsGet method ∧ ∃ id, values = [id] ∧ segmentsOf u.escapedPath =
      ["api".toList, "routers".toList, id, "devices".toList] ∧ id ≠ ['/'] := by
  obtain ⟨r, hr, hhandler, htakes, hmatch⟩ := authMux_sound hfound
  simp only [authMux, List.mem_cons, List.not_mem_nil, or_false] at hr
  rcases hr with rfl | rfl | rfl | rfl | rfl <;> first
    | exact absurd hhandler (by decide)
    | obtain ⟨id, ss', vs', hss, hvs, hid, hrest⟩ := matches_devices hmatch
      cases hrest
      exact ⟨isGet_of_takes rfl htakes, id, hvs, hss, hid⟩

/-- A result with a command comes from one of the two handlers. -/
theorem handleApp_toggled {now : Int} {stamp : Str} {ranging : Ranging} {s : Store} {method : Str} {u : Url}
    {cookie : Option Str} {res : Response} {cmd : Option Command}
    (h : handleApp c a broker now stamp ranging s method u cookie = .ok (.toggled res cmd)) :
    ∃ block values,
      findHandler authMux method u = .handler (if block then .apiBlock else .apiUnblock) values ∧
      doBlockUnblock broker stamp (values.getD 0 []) (values.getD 1 []) block = (res, cmd) := by
  unfold handleApp at h
  split at h
  · cases h
  · cases h
  · unfold handleAPIDevices at h
    split at h <;> cases h
  · next values hfound =>
    cases h
    exact ⟨true, values, hfound, rfl⟩
  · next values hfound =>
    cases h
    exact ⟨false, values, hfound, rfl⟩
  · cases h
  · cases h
  · cases h

theorem handleApp_listed {now : Int} {stamp : Str} {ranging : Ranging} {s : Store} {method : Str} {u : Url}
    {cookie : Option Str} {router : Router} {devices : List Device}
    (h : handleApp c a broker now stamp ranging s method u cookie = .ok (.listed router devices)) :
    ∃ values, findHandler authMux method u = .handler .apiDevices values := by
  unfold handleApp at h
  split at h
  · cases h
  · cases h
  · next values hfound => exact ⟨values, hfound⟩
  · cases h
  · cases h
  · cases h
  · cases h
  · cases h

/-- A listing is one of the router that is asked for. -/
theorem handleApp_devices {now : Int} {stamp : Str} {ranging : Ranging} {s : Store} {r : Incoming} {u : Url}
    {router : Router} {devices : List Device}
    (h : handleApp c a broker now stamp ranging s r.method u r.cookie = .ok (.listed router devices)) :
    ∃ id, AsksDevices r u id ∧ s.router id = .ok (some router) ∧
      devices = ranging.devices router.devices := by
  obtain ⟨values, hfound⟩ := handleApp_listed h
  obtain ⟨hget, id, rfl, hss, _⟩ := found_devices hfound
  unfold handleApp at h
  rw [hfound] at h
  dsimp only [handleAPIDevices, List.getD_cons_zero] at h
  split at h
  · cases h
  · cases h
  · next hrouter =>
    cases h
    exact ⟨id, ⟨hget, hss⟩, hrouter, rfl⟩

theorem handleApp_toggle {now : Int} {stamp : Str} {ranging : Ranging} {s : Store} {r : Incoming} {u : Url}
    {res : Response} {cmd : Option Command}
    (h : handleApp c a broker now stamp ranging s r.method u r.cookie = .ok (.toggled res cmd)) :
    ∃ id mac block, AsksToggle r u id mac block ∧ doBlockUnblock broker stamp id mac block = (res, cmd) := by
  obtain ⟨block, values, hfound, hdo⟩ := handleApp_toggled h
  obtain ⟨hpost, id, mac, rfl, hss, _⟩ := found_toggle hfound
  exact ⟨id, mac, block, ⟨hpost, hss⟩, hdo⟩

/-- An answer at once. -/
theorem handleApp_answer {q : Arrival} {u : Url}
    (huser : a.currentUser c q.now ⟨u.path, q.request.cookie⟩ = a.username) {ans : Answer}
    (h : handleApp c a broker q.now q.stamp q.ranging q.site.store q.request.method u q.request.cookie =
      .ok (.answer ans)) (hp : ans.isPrivate = true) : Asked a broker q u (.answer ans) := by
  unfold handleApp at h
  split at h
  · next values hfound =>
    cases h
    unfold handleDashboard at hp ⊢
    split at hp
    · cases hp
    · next hpath =>
      rw [if_neg hpath, huser]
      exact .dashboard (found_dashboard hfound) (not_not.mp hpath)
  · next values hfound =>
    cases h
    obtain ⟨hget, hss⟩ := found_routers hfound
    exact .routers hget hss
  · next values hfound =>
    obtain ⟨hget, id, rfl, hss, _⟩ := found_devices hfound
    dsimp only [handleAPIDevices, List.getD_cons_zero] at h
    split at h
    · cases h
    · next hnone =>
      cases h
      exact .unknownRouter ⟨hget, hss⟩ hnone
    · cases h
  · cases h
  · cases h
  · cases h
    cases hp
  · cases h
    cases hp
  · cases h
    cases hp

def Outcome.isPrivate : Outcome → Bool
  | .answer a => a.isPrivate
  | _ => true

theorem handleLoginPage_public (c : Crypto) (a : Auth) (now : Int) (r : HttpRequest) (error : Str) :
    (handleLoginPage c a now r error).isPrivate = false := by
  unfold handleLoginPage
  split <;> rfl

theorem LoginResult.answer_public (l : LoginResult) : l.answer.isPrivate = false := by
  cases l <;> rfl

/-- Only the mux behind the login has something private to say. -/
theorem handleHttp_private {now : Int} {stamp : Str} {ranging : Ranging} {s : Store} {r : Incoming}
    {o : Outcome} (h : handleHttp c a broker now stamp ranging s r = .ok o) (hp : o.isPrivate = true) :
    ∃ u, Url.parse r.target = some u ∧
      visitOf (.http now stamp ranging r) = some (now, .page ⟨u.path, r.cookie⟩) ∧
      a.currentUser c now ⟨u.path, r.cookie⟩ ≠ [] ∧
      handleApp c a broker now stamp ranging s r.method u r.cookie = .ok o := by
  unfold handleHttp at h
  split at h
  · cases h
    cases hp
  · next u hu =>
    split at h
    · cases h
      have hpublic := handleLoginPage_public c a now ⟨u.path, r.cookie⟩ r.error
      exact absurd hp (by rw [Outcome.isPrivate, hpublic]; exact Bool.false_ne_true)
    · cases h
      have hpublic := (a.handleLoginSubmit c now r.form).answer_public
      exact absurd hp (by rw [Outcome.isPrivate, hpublic]; exact Bool.false_ne_true)
    · cases h
      cases hp
    · cases h
      cases hp
    · next values hfound =>
      split at h
      · cases h
        cases hp
      · cases h
        cases hp
      · next hnext =>
        refine ⟨u, hu, ?_, Auth.requireLogin_eq_next.mp hnext, h⟩
        dsimp only [visitOf]
        rw [hu, Option.map_some, hfound]
    · cases h
      cases hp
    · cases h
      cases hp
    · cases h
      cases hp

/-! ## Runs -/

def Out.isPrivate : Out → Bool
  | .answer ans => ans.isPrivate
  | _ => true

/-- A request of the run that gets something private was let in. -/
theorem Arrival.In.letIn {events : List SiteEvent} {q : Arrival} (hin : q.In c a broker parse events)
    (hrun : Auth.IsRun c a (events.filterMap visitOf)) {o : Outcome} (ho : q.outcome c a broker = .ok o)
    (hp : o.isPrivate = true) : ∃ u, q.LetIn c a u ∧
      handleApp c a broker q.now q.stamp q.ranging q.site.store q.request.method u q.request.cookie =
        .ok o := by
  obtain ⟨u, hu, hvisit, huser, happ⟩ := handleHttp_private ho hp
  obtain ⟨after, rfl⟩ := hin.split
  rw [List.filterMap_append] at hrun
  exact ⟨u, Arrival.letIn hu (isRun_append_left hrun) hvisit huser, happ⟩

/-- What a request lets out at once. -/
theorem Arrival.In.asked {events : List SiteEvent} {q : Arrival} (hin : q.In c a broker parse events)
    (hrun : Auth.IsRun c a (events.filterMap visitOf)) {o : Outcome} (ho : q.outcome c a broker = .ok o)
    {s : Site} : ∀ x ∈ (o.apply s).2, x.isPrivate = true → ∃ u, q.LetIn c a u ∧ Asked a broker q u x := by
  intro x hx hp
  cases o with
  | answer ans =>
    obtain rfl := List.mem_singleton.mp hx
    obtain ⟨u, hlet, happ⟩ := hin.letIn hrun ho hp
    exact ⟨u, hlet, handleApp_answer hlet.user happ hp⟩
  | toggled res cmd =>
    obtain ⟨u, hlet, happ⟩ := hin.letIn hrun ho rfl
    obtain ⟨id, mac, block, hasks, hdo⟩ := handleApp_toggle happ
    refine ⟨u, hlet, ?_⟩
    rcases List.mem_append.mp hx with hx | hx
    · obtain ⟨y, hy, rfl⟩ := List.mem_map.mp hx
      have hcmd : cmd = some y := by simpa using hy
      obtain ⟨hmac, rfl⟩ := doBlockUnblock_some ((congrArg Prod.snd hdo).trans hcmd)
      exact .command hasks hmac
    · obtain rfl := List.mem_singleton.mp hx
      have hres : (doBlockUnblock broker q.stamp id mac block).1 = res := congrArg Prod.fst hdo
      rw [← hres]
      exact .toggled hasks
  | listed router devices => cases hx

/-- The request behind an answer that goes on or goes out, whichever event `e` that is. -/
theorem request_listing {before : List SiteEvent} {e : SiteEvent} {s : Site}
    (hrun : Auth.IsRun c a ((before ++ [e]).filterMap visitOf))
    (hs : Site.run c a broker parse before {} = some s) {i : Nat} {sv : Serving} (hi : s.serving[i]? = some sv) :
    ∃ q u id listed, (pending c a broker parse before)[i]? = some q ∧
      q.In c a broker parse (before ++ [e]) ∧ q.LetIn c a u ∧ AsksDevices q.request u id ∧
      q.site.store.router id = .ok (some sv.router) ∧
      q.ranging.devices sv.router.devices = listed ++ sv.todo ∧ List.Forall₂ ButVendor sv.done listed := by
  obtain ⟨q, hq, hin, listed, houtcome, hdone⟩ := request_at hs hi
  have hin' := hin.append [e]
  obtain ⟨u, hlet, happ⟩ := hin'.letIn hrun houtcome rfl
  obtain ⟨id, hasks, hrouter, hlisting⟩ := handleApp_devices happ
  exact ⟨q, u, id, listed, hq, hin', hlet, hasks, hrouter, hlisting.symm, hdone⟩

/-- A look-up starts a fetch for its own address, if any. -/
theorem lookup_fetches (r : Resolver) (mac : Str) :
    ∀ f ∈ (r.lookup mac).2.fetches.drop r.fetches.length, f.mac = mac := by
  have hnone : ∀ f ∈ r.fetches.drop r.fetches.length, f.mac = mac := fun f hf => by
    rw [List.drop_length] at hf
    cases hf
  cases hkey : ouiKey mac with
  | none =>
    rw [Resolver.lookup_malformed hkey]
    exact hnone
  | some key =>
    rw [Resolver.lookup_eq hkey]
    dsimp only
    rcases r.schedule_cases key mac with ⟨_, heq⟩ | ⟨_, heq⟩
    · rw [heq]
      exact hnone
    · rw [heq, List.drop_left]
      intro f hf
      rw [List.mem_singleton.mp hf]

/-- **Nothing without a login.** In every run in which the cookies are not forged, whatever goes out and
    is private is what the request behind it has asked for, whose sender was logged in. -/
theorem outs_authorized (broker : Command → Option Str) (parse : Str → Option Json)
    (before : List SiteEvent) (e : SiteEvent) {s s' : Site} {outs : List Out}
    (hrun : Auth.IsRun c a ((before ++ [e]).filterMap visitOf))
    (hs : Site.run c a broker parse before {} = some s)
    (hstep : s.step c a broker parse e = some (s', outs)) :
    ∀ o ∈ outs, o.isPrivate = true → ∃ q u, requestBehind c a broker parse before s e = some q ∧
      q.In c a broker parse (before ++ [e]) ∧ q.LetIn c a u ∧ Asked a broker q u o := by
  intro o ho hp
  cases Site.steps_of_step hstep with
  | failed _ => cases ho
  | @http now stamp ranging r out hout =>
    have hin := Arrival.in_now hs now stamp ranging r
    obtain ⟨u, hlet, hasked⟩ := hin.asked hrun hout o ho hp
    exact ⟨_, u, rfl, hin, hlet, hasked⟩
  | @lookup i router done todo d hi =>
    obtain ⟨q, u, id, listed, hq, hin, hlet, hasks, hrouter, hlisting, _⟩ := request_listing hrun hs hi
    obtain ⟨f, hf, rfl⟩ := List.mem_map.mp ho
    have hd : d ∈ q.ranging.devices router.devices := by
      rw [hlisting]
      exact List.mem_append_right _ List.mem_cons_self
    rw [lookup_fetches s.resolver d.mac f hf]
    exact ⟨q, u, hq, hin, hlet, .fetch hasks hrouter hd⟩
  | @respond i router done hi =>
    obtain ⟨q, u, id, listed, hq, hin, hlet, hasks, hrouter, hlisting, hdone⟩ := request_listing hrun hs hi
    obtain rfl := List.mem_singleton.mp ho
    rw [List.append_nil] at hlisting
    exact ⟨q, u, hq, hin, hlet, .devices hasks hrouter (hlisting ▸ hdone)⟩
  | message _ => cases ho
  | store _ => cases ho
  | finish _ => cases ho

end Gate

/-! ## A session -/

theorem exists_ranging : Nonempty Ranging := by
  have hdevices : ∀ m : Devices, ∃ out, ¬ HasNil m → DevicesList m out := fun m => by
    by_cases hm : HasNil m
    · exact ⟨[], fun h => absurd hm h⟩
    · obtain ⟨out, hout⟩ := exists_devicesList hm
      exact ⟨out, fun _ => hout⟩
  have hrouters : ∀ s : Store, ∃ out, RoutersList s out := fun s => by
    obtain ⟨out, hout⟩ : ∃ out, IsSort (fun a b : Router => decide (a.id < b.id))
        (s.entries.map fun e => e.2.snapshot).toList out :=
      SliceSort.exists_isSort (fun a b h => by simpa using (of_decide_eq_true h).le)
        (fun a b c hab hbc => by simpa using le_trans (by simpa using hab) (by simpa using hbc)) _
    exact ⟨out, _, Multiset.coe_toList _, hout⟩
  choose devices hd using hdevices
  choose routers hr using hrouters
  exact ⟨⟨devices, routers, hd, hr⟩⟩

/-- Any listing of one map can be what `range` comes to. -/
theorem exists_ranging_listing {m : Devices} {listing : List Device} (h : DevicesList m listing) :
    ∃ ranging : Ranging, ranging.devices m = listing := by
  classical
  obtain ⟨r⟩ := exists_ranging
  refine ⟨{ r with
    devices := fun m' => if m' = m then listing else r.devices m'
    devices_list := fun m' hm' => ?_ }, if_pos rfl⟩
  by_cases heq : m' = m
  · rw [if_pos heq, heq]
    exact h
  · rw [if_neg heq]
    exact r.devices_list m' hm'

/-- The login of `plainRun`. -/
def loginRequest : Incoming :=
  { method := "POST".toList, target := "/login".toList, form := some ("admin".toList, "pw".toList) }

/-- The devices are listed in the session. -/
def listingRequest : Incoming where
  method := "GET".toList
  target := "/api/routers/router-1/devices".toList
  cookie := plainPage.cookie

/-- The login, and requests with its cookie. -/
theorem session_isRun (path : Str) (n : Nat) : Auth.IsRun plainCrypto plainAuth
    ((0, .login (some ("admin".toList, "pw".toList))) ::
      List.replicate n (3600 * 10 ^ 9, .page ⟨path, plainPage.cookie⟩)) where
  ordered := by
    refine List.pairwise_cons.mpr ⟨fun v hv => ?_, List.pairwise_replicate.mpr (Or.inr le_rfl)⟩
    rw [(List.mem_replicate.mp hv).2]
    exact show (0 : Int) ≤ 3600 * 10 ^ 9 by decide
  unforged before t r after hat := by
    cases before with
    | nil => cases hat
    | cons v before =>
      obtain ⟨rfl, hrest⟩ := List.cons.inj hat
      have hmem : (t, Auth.Visit.page r) ∈ List.replicate n
          (3600 * 10 ^ 9, Auth.Visit.page ⟨path, plainPage.cookie⟩) := by
        rw [hrest]
        exact List.mem_append_right _ List.mem_cons_self
      cases (List.mem_replicate.mp hmem).2
      -- what is assumed of a request is about its cookie
      intro value encoded signature hvalue hcut p hp
      have hold := plainRun_isRun.unforged [_] _ plainPage [] rfl value encoded signature hvalue hcut p hp
      exact (((List.nil_sublist before).cons_cons _).filterMap _).subset hold

/-- What the store has of the two devices of `houseMessages`. -/
def tvShown (blocked : Bool) : Device where
  mac := "02:00:00:00:00:01".toList
  ip := "10.0.0.2".toList
  hostname := "tv".toList
  blocked := blocked
  leaseExpires := 100
  lastSeen := 60

def nasShown : Device where
  mac := "02:00:00:00:00:02".toList
  ip := "10.0.0.3".toList
  hostname := "nas".toList
  blocked := true
  lastSeen := 60

/-- A snapshot with one of them, and one with both. -/
def tvMessage : Message := devicesMessage (tvText "false".toList "100".toList) 61

def bothMessage : Message := devicesMessage (tvText "true".toList "100".toList ++ ',' :: nasText) 62

def tvRouter : Router where
  id := "router-1".toList
  lastUpdate := 61
  devicesUpdate := 60
  devices := Finmap.insert (tvShown false).mac (some (tvShown false)) ∅

def bothRouter : Router where
  id := "router-1".toList
  lastUpdate := 62
  devicesUpdate := 60
  devices := Finmap.insert nasShown.mac (some nasShown)
    (Finmap.insert (tvShown true).mac (some (tvShown true)) ∅)

def storeOf (router : Router) : Store := Finmap.insert router.id router ∅

theorem deliver_tvMessage : deliver Json.read tvMessage ∅ = .ok (storeOf tvRouter) := by
  have hread : Json.read tvMessage.payload =
      some ((Msg.devices 60 [tvUntil 100 60]).payload defaultConfig) :=
    Json.read_of_print rfl (by decide +kernel)
  rw [deliver_of_parse hread]
  rfl

theorem deliver_bothMessage : deliver Json.read bothMessage (storeOf tvRouter) = .ok (storeOf bothRouter) := by
  have hread : Json.read bothMessage.payload =
      some ((Msg.devices 60 [{ tvUntil 100 60 with blocked := true }, nas]).payload defaultConfig) :=
    Json.read_of_print rfl (by decide +kernel)
  rw [deliver_of_parse hread]
  rfl

theorem tv_list : DevicesList tvRouter.devices [tvShown false] :=
  ⟨[tvShown false], rfl, .refl _, List.pairwise_singleton _ _⟩

theorem both_list : DevicesList bothRouter.devices [nasShown, tvShown true] :=
  ⟨[nasShown, tvShown true], rfl, .refl _, by decide⟩

/-- The devices are asked for twice, with a snapshot in between. -/
def sessionEvents (r₁ r₂ : Ranging) : List SiteEvent :=
  [.http 0 [] r₁ loginRequest, .message tvMessage, .http (3600 * 10 ^ 9) [] r₁ listingRequest,
    .message bothMessage, .http (3600 * 10 ^ 9) [] r₂ listingRequest]

/-- Neither answer has gone out. -/
def sessionSite : Site where
  store := storeOf bothRouter
  serving := [⟨tvRouter, [], [tvShown false]⟩, ⟨bothRouter, [], [nasShown, tvShown true]⟩]

theorem sessionSite_reached {r₁ r₂ : Ranging} (h₁ : r₁.devices tvRouter.devices = [tvShown false])
    (h₂ : r₂.devices bothRouter.devices = [nasShown, tvShown true]) :
    Site.run plainCrypto plainAuth (fun _ => none) Json.read (sessionEvents r₁ r₂) {} = some sessionSite := by
  obtain ⟨outs, hlogin⟩ : ∃ outs, Site.step plainCrypto plainAuth (fun _ => none) Json.read {}
      (.http 0 [] r₁ loginRequest) = some ({}, outs) := ⟨_, rfl⟩
  have htv : Site.step plainCrypto plainAuth (fun _ => none) Json.read { store := storeOf tvRouter }
      (.http (3600 * 10 ^ 9) [] r₁ listingRequest) = some
        ({ store := storeOf tvRouter, serving := [⟨tvRouter, [], r₁.devices tvRouter.devices⟩] }, []) := rfl
  have hboth : Site.step plainCrypto plainAuth (fun _ => none) Json.read
      { store := storeOf bothRouter, serving := [⟨tvRouter, [], [tvShown false]⟩] }
      (.http (3600 * 10 ^ 9) [] r₂ listingRequest) = some
        ({ store := storeOf bothRouter, serving :=
            [⟨tvRouter, [], [tvShown false]⟩, ⟨bothRouter, [], r₂.devices bothRouter.devices⟩] }, []) := rfl
  rw [h₁] at htv
  rw [h₂] at hboth
  have hone : Site.step plainCrypto plainAuth (fun _ => none) Json.read {} (.message tvMessage) =
      some ({ store := storeOf tvRouter }, []) := Site.step_message deliver_tvMessage
  have htwo : Site.step plainCrypto plainAuth (fun _ => none) Json.read
      { store := storeOf tvRouter, serving := [⟨tvRouter, [], [tvShown false]⟩] } (.message bothMessage) =
      some ({ store := storeOf bothRouter, serving := [⟨tvRouter, [], [tvShown false]⟩] }, []) :=
    Site.step_message deliver_bothMessage
  rw [sessionEvents, Site.run_cons hlogin, Site.run_cons hone, Site.run_cons htv, Site.run_cons htwo,
    Site.run_cons hboth]
  rfl

/-- The first device of the second answer is looked up. -/
theorem outs_authorized_lookup : ∃ r₁ r₂ s', sessionSite.step plainCrypto plainAuth (fun _ => none) Json.read
      (.lookup 1) = some (s', [.fetch nasShown.mac]) ∧
    ∃ q u, requestBehind plainCrypto plainAuth (fun _ => none) Json.read (sessionEvents r₁ r₂) sessionSite
        (.lookup 1) = some q ∧
      q.In plainCrypto plainAuth (fun _ => none) Json.read (sessionEvents r₁ r₂ ++ [.lookup 1]) ∧
      q.LetIn plainCrypto plainAuth u ∧ Asked plainAuth (fun _ => none) q u (.fetch nasShown.mac) := by
  obtain ⟨r₁, h₁⟩ := exists_ranging_listing tv_list
  obtain ⟨r₂, h₂⟩ := exists_ranging_listing both_list
  exact ⟨r₁, r₂, _, rfl, outs_authorized (fun _ => none) Json.read (sessionEvents r₁ r₂) (.lookup 1)
    (session_isRun "/api/routers/router-1/devices".toList 2) (sessionSite_reached h₁ h₂) rfl _
    List.mem_cons_self rfl⟩

end Netparent.Web
