/-
  server.go: the requests, and the web app as a whole.

  `Handler()` is two muxes, one behind the login of the other. `Site.step` takes the app through what can
  happen: a request, a look-up of the vendor of the next device of an answer, that answer, a message of the
  broker, a section of a fetch. A handler that answers with devices runs beside all the others, so its
  look-ups are steps of their own.

  Beyond the model: what the file server answers, the query string of a redirect, the texts of net/http's
  own errors.
-/
import Netparent.Lib.ServeMux
import Netparent.Web.Auth
import Netparent.Web.Devices
import Netparent.Web.Isolation
import Netparent.Web.Oui
import Netparent.Web.Server

namespace Netparent.Web

open ServeMux (Route Segment Url Found findHandler)
open SliceSort (IsSort)

/-! ## Routes -/

inductive Endpoint where
  | loginPage
  | loginSubmit
  | logout
  | static
  /-- Everything else, behind `RequireLogin`. -/
  | app
  deriving DecidableEq

inductive AppEndpoint where
  | dashboard
  | apiRouters
  | apiDevices
  | apiBlock
  | apiUnblock
  deriving DecidableEq

def mux : List (Route Endpoint) :=
  [⟨some "GET".toList, [.literal "login".toList], .loginPage⟩,
    ⟨some "POST".toList, [.literal "login".toList], .loginSubmit⟩,
    ⟨some "POST".toList, [.literal "logout".toList], .logout⟩,
    ⟨some "GET".toList, [.literal "static".toList, .rest], .static⟩,
    ⟨none, [.rest], .app⟩]

/-- `api/routers/{id}/devices` and what follows it. -/
def devicesPattern (rest : List Segment) : List Segment :=
  [.literal "api".toList, .literal "routers".toList, .wildcard, .literal "devices".toList] ++ rest

def authMux : List (Route AppEndpoint) :=
  [⟨some "GET".toList, [.rest], .dashboard⟩,
    ⟨some "GET".toList, [.literal "api".toList, .literal "routers".toList], .apiRouters⟩,
    ⟨some "GET".toList, devicesPattern [], .apiDevices⟩,
    ⟨some "POST".toList, devicesPattern [.wildcard, .literal "block".toList], .apiBlock⟩,
    ⟨some "POST".toList, devicesPattern [.wildcard, .literal "unblock".toList], .apiUnblock⟩]

/-! ## Requests and answers -/

/-- A request for a path. -/
structure Incoming where
  method : Str
  /-- The path in the request line. -/
  target : Str
  /-- The value of the `np_session` cookie, if there is one. -/
  cookie : Option Str := none
  /-- `none` when it does not parse. -/
  form : Option (Str × Str) := none
  /-- `error` in the query string. -/
  error : Str := []

inductive Answer where
  | badRequest
  | redirect (status : Nat) (target : Str) (cookie : Option SetCookie)
  | error (status : Nat)
  | loginPage (error : Str)
  | dashboard (user : Str)
  | file (path : Str)
  | json (r : Response)

/-- It has something that is behind the login in it. -/
def Answer.isPrivate : Answer → Bool
  | .dashboard _ => true
  | .json _ => true
  | _ => false

/-- A router of `Routers()`, which leaves the devices out. -/
def Router.snapshot (r : Router) : Router := { r with devices := ∅ }

/-- `out` can be the result of `Routers()`. -/
def RoutersList (s : Store) (out : List Router) : Prop :=
  ∃ visit : List Router, (visit : Multiset Router) = s.entries.map (fun e => e.2.snapshot) ∧
    IsSort (fun a b : Router => decide (a.id < b.id)) visit out

/-- What the two listings of the store give, for an order in which `range` visits the maps. -/
structure Ranging where
  devices : Devices → List Device
  routers : Store → List Router
  devices_list : ∀ m, ¬ HasNil m → DevicesList m (devices m)
  routers_list : ∀ s, RoutersList s (routers s)

def routerJson (r : Router) : Json :=
  .obj [("id".toList, .str r.id), ("online".toList, .bool r.online),
    ("last_update".toList, .int r.lastUpdate), ("devices_update".toList, .int r.devicesUpdate)]

def deviceJson (d : Device) : Json :=
  .obj ([("mac".toList, .str d.mac), ("ip".toList, .str d.ip), ("hostname".toList, .str d.hostname),
    ("blocked".toList, .bool d.blocked), ("lease_expires".toList, .int d.leaseExpires),
    ("last_seen".toList, .int d.lastSeen)] ++
      if d.vendor = [] then [] else [("vendor".toList, .str d.vendor)])

def routersBody (routers : List Router) : Json :=
  .obj [("routers".toList, .arr (routers.map routerJson))]

/-- The keys of a Go map are sorted. -/
def devicesBody (router : Router) (devices : List Device) : Json :=
  .obj [("devices".toList, .arr (devices.map deviceJson)),
    ("router".toList, .obj [("devices_update".toList, .int router.devicesUpdate),
      ("id".toList, .str router.id), ("last_update".toList, .int router.lastUpdate),
      ("online".toList, .bool router.online)])]

/-! ## Handlers -/

/-- What a handler does before it waits for anything. -/
inductive Outcome where
  | answer (a : Answer)
  | toggled (r : Response) (cmd : Option Command)
  /-- The devices are listed, and their vendors still to be looked up. -/
  | listed (router : Router) (devices : List Device)

section Handlers

variable (c : Crypto) (a : Auth) (broker : Command → Option Str)

def handleLoginPage (now : Int) (r : HttpRequest) (error : Str) : Answer :=
  if a.currentUser c now r ≠ [] then .redirect 303 ['/'] none else .loginPage error

/-- What the handlers answer for a result of the login. -/
def LoginResult.answer : LoginResult → Answer
  | .badForm => .error 400
  | .invalid => .redirect 303 "/login?error=invalid".toList none
  | .loggedIn cookie => .redirect 303 ['/'] (some cookie)

def handleDashboard (now : Int) (r : HttpRequest) : Answer :=
  if r.path ≠ ['/'] then .error 404 else .dashboard (a.currentUser c now r)

def handleAPIRouters (ranging : Ranging) (s : Store) : Answer :=
  .json ⟨200, routersBody (ranging.routers s)⟩

/-- `handleAPIDevices` up to its loop. -/
def handleAPIDevices (ranging : Ranging) (s : Store) (id : Str) : Except Fault Outcome :=
  match s.router id with
  | .error e => .error e
  | .ok none => .ok (.answer (.json ⟨404, .obj [("error".toList, .str "router not found".toList)]⟩))
  | .ok (some router) => .ok (.listed router (ranging.devices router.devices))

def Outcome.ofToggle (p : Response × Option Command) : Except Fault Outcome := .ok (.toggled p.1 p.2)

/-- The mux behind the login. -/
def handleApp (now : Int) (stamp : Str) (ranging : Ranging) (s : Store) (method : Str) (u : Url)
    (cookie : Option Str) : Except Fault Outcome :=
  match findHandler authMux method u with
  | .handler .dashboard _ => .ok (.answer (handleDashboard c a now ⟨u.path, cookie⟩))
  | .handler .apiRouters _ => .ok (.answer (handleAPIRouters ranging s))
  | .handler .apiDevices values => handleAPIDevices ranging s (values.getD 0 [])
  | .handler .apiBlock values =>
      Outcome.ofToggle (doBlockUnblock broker stamp (values.getD 0 []) (values.getD 1 []) true)
  | .handler .apiUnblock values =>
      Outcome.ofToggle (doBlockUnblock broker stamp (values.getD 0 []) (values.getD 1 []) false)
  | .redirect path => .ok (.answer (.redirect 301 (ServeMux.escape path) none))
  | .notAllowed => .ok (.answer (.error 405))
  | .notFound => .ok (.answer (.error 404))

/-- `Handler()` -/
def handleHttp (now : Int) (stamp : Str) (ranging : Ranging) (s : Store) (r : Incoming) :
    Except Fault Outcome :=
  match Url.parse r.target with
  | none => .ok (.answer .badRequest)
  | some u => match findHandler mux r.method u with
    | .handler .loginPage _ => .ok (.answer (handleLoginPage c a now ⟨u.path, r.cookie⟩ r.error))
    | .handler .loginSubmit _ => .ok (.answer (a.handleLoginSubmit c now r.form).answer)
    | .handler .logout _ => .ok (.answer (.redirect 303 "/login".toList (some a.handleLogout)))
    | .handler .static _ => .ok (.answer (.file u.path))
    | .handler .app _ => match a.requireLogin c now ⟨u.path, r.cookie⟩ with
      | .unauthorized => .ok (.answer (.error 401))
      | .redirect target => .ok (.answer (.redirect 303 target none))
      | .next => handleApp c a broker now stamp ranging s r.method u r.cookie
    | .redirect path => .ok (.answer (.redirect 301 (ServeMux.escape path) none))
    | .notAllowed => .ok (.answer (.error 405))
    | .notFound => .ok (.answer (.error 404))

end Handlers

/-! ## The app -/

/-- An answer being put together: the devices whose vendors are looked up, and the others. -/
structure Serving where
  router : Router
  done : List Device := []
  todo : List Device

structure Site where
  store : Store := ∅
  resolver : Resolver := {}
  serving : List Serving := []

inductive SiteEvent where
  | http (now : Int) (stamp : Str) (ranging : Ranging) (r : Incoming)
  /-- A handler looks its next vendor up. -/
  | lookup (i : Nat)
  | respond (i : Nat)
  | message (m : Message)
  /-- The two sections of fetch `i`. -/
  | store (i : Nat) (reply : Reply)
  | finish (i : Nat)

/-- What goes out. -/
inductive Out where
  | answer (a : Answer)
  | command (cmd : Command)
  /-- A fetch is started for an address. -/
  | fetch (mac : Str)

def Outcome.apply (s : Site) : Outcome → Site × List Out
  | .answer a => (s, [.answer a])
  | .toggled r cmd => (s, cmd.toList.map .command ++ [.answer (.json r)])
  | .listed router devices =>
      ({ s with serving := s.serving ++ [{ router := router, todo := devices }] }, [])

section Step

variable (c : Crypto) (a : Auth) (broker : Command → Option Str) (parse : Str → Option Json)

/-- `none` when there is no such handler or fetch at that point, or the process ends. -/
def Site.step (s : Site) : SiteEvent → Option (Site × List Out)
  | .http now stamp ranging r => match handleHttp c a broker now stamp ranging s.store r with
      -- net/http recovers from the panic of a handler
      | .error _ => some (s, [])
      | .ok o => some (o.apply s)
  | .lookup i => match s.serving[i]? with
      | some ⟨router, done, d :: todo⟩ =>
          let l := s.resolver.lookup d.mac
          some ({ s with
              resolver := l.2
              serving := s.serving.set i ⟨router, done ++ [{ d with vendor := l.1 }], todo⟩ },
            (l.2.fetches.drop s.resolver.fetches.length).map fun f => .fetch f.mac)
      | _ => none
  | .respond i => match s.serving[i]? with
      | some ⟨router, done, []⟩ => some ({ s with serving := s.serving.eraseIdx i },
          [.answer (.json ⟨200, devicesBody router done⟩)])
      | _ => none
  | .message m => match deliver parse m s.store with
      | .error _ => none
      | .ok store => some ({ s with store := store }, [])
  | .store i reply => (s.resolver.store i reply).map fun r => ({ s with resolver := r }, [])
  | .finish i => (s.resolver.finish i).map fun r => ({ s with resolver := r }, [])

def Site.run : List SiteEvent → Site → Option Site
  | [], s => some s
  | e :: es, s => match s.step c a broker parse e with
      | none => none
      | some p => run es p.1

/-- What a step can be. -/
inductive Site.Steps (s : Site) : SiteEvent → Site → List Out → Prop
  | failed {now : Int} {stamp : Str} {ranging : Ranging} {r : Incoming} {err : Fault}
      (ho : handleHttp c a broker now stamp ranging s.store r = .error err) :
      Steps s (.http now stamp ranging r) s []
  | http {now : Int} {stamp : Str} {ranging : Ranging} {r : Incoming} {o : Outcome}
      (ho : handleHttp c a broker now stamp ranging s.store r = .ok o) :
      Steps s (.http now stamp ranging r) (o.apply s).1 (o.apply s).2
  | lookup {i : Nat} {router : Router} {done todo : List Device} {d : Device}
      (hi : s.serving[i]? = some ⟨router, done, d :: todo⟩) : Steps s (.lookup i)
        { s with
          resolver := (s.resolver.lookup d.mac).2
          serving := s.serving.set i
            ⟨router, done ++ [{ d with vendor := (s.resolver.lookup d.mac).1 }], todo⟩ }
        (((s.resolver.lookup d.mac).2.fetches.drop s.resolver.fetches.length).map fun f => .fetch f.mac)
  | respond {i : Nat} {router : Router} {done : List Device} (hi : s.serving[i]? = some ⟨router, done, []⟩) :
      Steps s (.respond i) { s with serving := s.serving.eraseIdx i }
        [.answer (.json ⟨200, devicesBody router done⟩)]
  | message {m : Message} {store : Store} (hm : deliver parse m s.store = .ok store) :
      Steps s (.message m) { s with store := store } []
  | store {i : Nat} {reply : Reply} {r : Resolver} (hr : s.resolver.store i reply = some r) :
      Steps s (.store i reply) { s with resolver := r } []
  | finish {i : Nat} {r : Resolver} (hr : s.resolver.finish i = some r) :
      Steps s (.finish i) { s with resolver := r } []

variable {c a broker parse}

theorem Site.steps_of_step {s s' : Site} {e : SiteEvent} {outs : List Out}
    (h : s.step c a broker parse e = some (s', outs)) : s.Steps c a broker parse e s' outs := by
  cases e with
  | http now stamp ranging r =>
    unfold Site.step at h
    dsimp only at h
    split at h
    · next err ho =>
      cases h
      exact .failed ho
    · next o ho =>
      have hout : s.Steps c a broker parse (.http now stamp ranging r) (o.apply s).1 (o.apply s).2 :=
        .http ho
      rw [Option.some.inj h] at hout
      exact hout
  | lookup i =>
    unfold Site.step at h
    dsimp only at h
    split at h
    · next router done d todo hi =>
      cases h
      exact .lookup hi
    · cases h
  | respond i =>
    unfold Site.step at h
    dsimp only at h
    split at h
    · next router done hi =>
      cases h
      exact .respond hi
    · cases h
  | message m =>
    unfold Site.step at h
    dsimp only at h
    split at h
    · cases h
    · next store hm =>
      cases h
      exact .message hm
  | store i reply =>
    obtain ⟨r, hr, heq⟩ := Option.map_eq_some_iff.mp h
    cases heq
    exact .store hr
  | finish i =>
    obtain ⟨r, hr, heq⟩ := Option.map_eq_some_iff.mp h
    cases heq
    exact .finish hr

end Step

end Netparent.Web
