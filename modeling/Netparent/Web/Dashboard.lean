/-
  app.js: the page, which runs beside the user, the timers and the answers on their way.

  `Page.step` takes the page through what can happen to it: a card, a button or Refresh is clicked, a timer
  fires, an answer comes in. Every `await` is a step of its own: between a request and its answer anything can
  happen, so the answer shown need not be to what was asked for last.

  However the clicks, timers and answers take turns, there is never more than one interval running, the one of
  the handle (`run_oneInterval`).

  Beyond the model: how times are worded, and what the engine says of a value it cannot use.
-/
import Netparent.Web.Roster

namespace Netparent.Web

/-! ## Requests -/

/-- A call of `api`; `selecting` when `selectRouter` waits for it. -/
inductive Call where
  | routers (selecting : Bool)
  | devices (id : Str) (selecting : Bool)
  | toggle (id mac : Str) (block : Bool)
  deriving DecidableEq

/-- The bodies the handlers answer with. -/
inductive Body where
  | routers (routers : List Router)
  | devices (router : Router) (devices : List Device)
  | published

/-- What a `fetch` comes to, with the text and the JSON of the body. -/
inductive Fetched where
  | rejected (message : Str)
  | response (status : Nat) (text : Str) (body : Except Str Body)

def api : Fetched → Except Str Body
  | .rejected message => .error message
  | .response status text body =>
      if status = 401 then .error "unauthorized".toList
      else if status < 200 ∨ 300 ≤ status then .error (Nat.toDigits 10 status ++ ' ' :: text)
      else body

/-- It sends the browser to the login. -/
def Fetched.leaves : Fetched → Bool
  | .rejected _ => false
  | .response status _ _ => status == 401

/-- A call that is awaited, and its answer when there is one. -/
structure Pending where
  call : Call
  answer : Option Fetched := none

/-! ## The page -/

/-- The body of the table; `none` where the engine words the message. -/
inductive Table where
  | empty
  | failed (message : Option Str)
  | rows (devices : List Device)

structure Page where
  selectedRouter : Option Str := none
  pollHandle : Option Nat := none
  /-- The timers that run, by handle. -/
  intervals : List Nat := []
  timeouts : List Nat := []
  lastHandle : Nat := 0
  pending : List Pending := []
  cards : List Router := []
  /-- The card shown as selected. -/
  highlighted : Option Str := none
  hidden : Bool := true
  currentId : Str := []
  /-- `devices_update`, which is not shown when it is 0. -/
  updated : Int := 0
  table : Table := .empty
  alerts : List Str := []
  leaving : Bool := false

namespace Page

/-- `state.selectedRouter`, when it is not falsy. -/
def selection (p : Page) : Option Str := p.selectedRouter.filter (· ≠ [])

def call (p : Page) (c : Call) : Page := { p with pending := p.pending ++ [{ call := c }] }

def selectRouter (p : Page) (id : Str) : Page := { p with selectedRouter := some id }.call (.routers true)

def startPolling (p : Page) : Page :=
  let intervals := match p.pollHandle with
    | some h => p.intervals.erase h
    | none => p.intervals
  { p with
    lastHandle := p.lastHandle + 1
    pollHandle := some (p.lastHandle + 1)
    intervals := intervals ++ [p.lastHandle + 1] }

def loadDevices (p : Page) (selecting : Bool) : Page := match p.selection with
  | none => if selecting then p.startPolling else p
  | some id => p.call (.devices id selecting)

def renderRouters (p : Page) (routers : List Router) : Page :=
  { p with cards := routers, highlighted := p.selectedRouter }

/-- A lone router is selected. -/
def selectLone (p : Page) (routers : List Router) : Page := match p.selection, routers with
  | none, [r] => p.selectRouter r.id
  | _, _ => p

/-- `loadRouters` from its answer on, and what `selectRouter` does behind it. -/
def routersLoaded (p : Page) (selecting : Bool) : Except Str Body → Page
  -- nobody catches it: `selectRouter` ends here too
  | .error _ => p
  | .ok body =>
      let routers := match body with
        | .routers routers => routers
        | _ => []
      let p := (p.renderRouters routers).selectLone routers
      if selecting then p.loadDevices true else p

/-- `loadDevices` from its answer on. -/
def showDevices (p : Page) : Except Str Body → Page
  | .ok (.devices router devices) => { p with
      hidden := false
      currentId := router.id
      updated := router.devicesUpdate
      table := .rows devices }
  -- there is no router in it whose id could be read
  | .ok _ => { p with hidden := false, table := .failed none }
  | .error message => { p with table := .failed (some message) }

def devicesLoaded (p : Page) (selecting : Bool) (body : Except Str Body) : Page :=
  let p := p.showDevices body
  if selecting then p.startPolling else p

/-- `toggle` from its answer on. -/
def toggled (p : Page) (mac : Str) (block : Bool) : Except Str Body → Page
  | .ok _ => { p with lastHandle := p.lastHandle + 1, timeouts := p.timeouts ++ [p.lastHandle + 1] }
  | .error message => { p with alerts := p.alerts ++ ["Failed to ".toList ++ actionOf block ++ ' ' :: mac ++
      ": ".toList ++ message] }

def settled (p : Page) : Call → Except Str Body → Page
  | .routers selecting, body => p.routersLoaded selecting body
  | .devices _ selecting, body => p.devicesLoaded selecting body
  | .toggle _ mac block, body => p.toggled mac block body

/-- What a template literal makes of `state.selectedRouter`. -/
def selectedText (p : Page) : Str := p.selectedRouter.getD "null".toList

/-- The call of a button. -/
def toggle (p : Page) (d : Device) : Page := p.call (.toggle p.selectedText d.mac (!d.blocked))

/-- `loadRouters(); loadDevices();` -/
def refresh (p : Page) : Page := (p.call (.routers false)).loadDevices false

end Page

inductive PageEvent where
  | card (i : Nat)
  | button (i : Nat)
  | refresh
  | tick (handle : Nat)
  | timeout (handle : Nat)
  /-- An answer to a call has come in. -/
  | answered (i : Nat) (f : Fetched)
  /-- What waits for it goes on. -/
  | settled (i : Nat)

/-- `none` when there is no such card, button, timer or call. -/
def Page.step (p : Page) : PageEvent → Option Page
  | .card i => p.cards[i]?.map fun r => p.selectRouter r.id
  | .button i => match p.table with
      | .rows devices => devices[i]?.map p.toggle
      | _ => none
  | .refresh => some p.refresh
  | .tick h => if h ∈ p.intervals then some p.refresh else none
  | .timeout h =>
      if h ∈ p.timeouts then some ({ p with timeouts := p.timeouts.erase h }.loadDevices false) else none
  | .answered i f => match p.pending[i]? with
      | some ⟨c, none⟩ => some { p with pending := p.pending.set i ⟨c, some f⟩ }
      | _ => none
  | .settled i => match p.pending[i]? with
      | some ⟨c, some f⟩ =>
          some ({ p with pending := p.pending.eraseIdx i, leaving := p.leaving || f.leaves }.settled c (api f))
      | _ => none

/-- What the script does at once. -/
def Page.start : Page := ({} : Page).call (.routers false)

def Page.run : List PageEvent → Page → Option Page
  | [], p => some p
  | e :: es, p => match p.step e with
      | none => none
      | some p' => run es p'

/-! ## What the parts of a step do -/

namespace Page

theorem loadDevices_cases (p : Page) (selecting : Bool) :
    p.selection = none ∧ p.loadDevices selecting = (if selecting then p.startPolling else p) ∨
      ∃ id, p.selection = some id ∧ p.loadDevices selecting = p.call (.devices id selecting) := by
  unfold loadDevices
  cases hsel : p.selection with
  | none => exact Or.inl ⟨rfl, rfl⟩
  | some id => exact Or.inr ⟨id, rfl, rfl⟩

theorem selectLone_cases (p : Page) (routers : List Router) : p.selectLone routers = p ∨
    p.selection = none ∧ ∃ r, routers = [r] ∧ p.selectLone routers = p.selectRouter r.id := by
  unfold selectLone
  split
  · next r hsel => exact Or.inr ⟨hsel, r, rfl, rfl⟩
  · exact Or.inl rfl

/-! ## At most one interval -/

/-- Only the interval of the handle runs. -/
def OneInterval (p : Page) : Prop := p.intervals = p.pollHandle.toList

theorem startPolling_oneInterval {p : Page} (h : p.OneInterval) : p.startPolling.OneInterval := by
  unfold OneInterval at h ⊢
  dsimp only [startPolling]
  rw [h]
  cases p.pollHandle with
  | none => rfl
  | some k => simp

theorem loadDevices_oneInterval {p : Page} (h : p.OneInterval) (selecting : Bool) :
    (p.loadDevices selecting).OneInterval := by
  rcases p.loadDevices_cases selecting with ⟨_, heq⟩ | ⟨id, _, heq⟩
  · rw [heq]
    split
    · exact startPolling_oneInterval h
    · exact h
  · rw [heq]
    exact h

theorem settled_oneInterval {p : Page} (h : p.OneInterval) (c : Call) (body : Except Str Body) :
    (p.settled c body).OneInterval := by
  cases c with
  | routers selecting =>
    cases body with
    | error message => exact h
    | ok b =>
      have hlone : ∀ routers, ((p.renderRouters routers).selectLone routers).OneInterval := fun routers => by
        rcases (p.renderRouters routers).selectLone_cases routers with heq | ⟨_, r, _, heq⟩
        · rw [heq]
          exact h
        · rw [heq]
          exact h
      unfold settled routersLoaded
      dsimp only
      split
      · exact loadDevices_oneInterval (hlone _) true
      · exact hlone _
  | devices id selecting =>
    have hshown : (p.showDevices body).OneInterval := by
      rcases body with message | (routers | ⟨router, devices⟩ | _) <;> exact h
    unfold settled devicesLoaded
    dsimp only
    split
    · exact startPolling_oneInterval hshown
    · exact hshown
  | toggle id mac block => cases body <;> exact h

theorem step_oneInterval {p p' : Page} {e : PageEvent} (hstep : p.step e = some p') (h : p.OneInterval) :
    p'.OneInterval := by
  have hrefresh : p.refresh.OneInterval := loadDevices_oneInterval (p := p.call (.routers false)) h false
  cases e with
  | card i =>
    obtain ⟨r, _, rfl⟩ := Option.map_eq_some_iff.mp hstep
    exact h
  | button i =>
    unfold step at hstep
    dsimp only at hstep
    split at hstep
    · obtain ⟨d, _, rfl⟩ := Option.map_eq_some_iff.mp hstep
      exact h
    · cases hstep
  | refresh =>
    cases hstep
    exact hrefresh
  | tick k =>
    unfold step at hstep
    dsimp only at hstep
    split at hstep
    · cases hstep
      exact hrefresh
    · cases hstep
  | timeout k =>
    unfold step at hstep
    dsimp only at hstep
    split at hstep
    · cases hstep
      exact loadDevices_oneInterval (p := { p with timeouts := p.timeouts.erase k }) h false
    · cases hstep
  | answered i f =>
    unfold step at hstep
    dsimp only at hstep
    split at hstep
    · cases hstep
      exact h
    · cases hstep
  | settled i =>
    unfold step at hstep
    dsimp only at hstep
    split at hstep
    · next c f _ =>
      cases hstep
      exact settled_oneInterval (p := { p with
        pending := p.pending.eraseIdx i, leaving := p.leaving || f.leaves }) h c (api f)
    · cases hstep

theorem OneInterval.run {p q : Page} (h : p.OneInterval) {events : List PageEvent}
    (hrun : Page.run events p = some q) : q.OneInterval := by
  induction events generalizing p with
  | nil =>
    cases hrun
    exact h
  | cons e es ih =>
    unfold Page.run at hrun
    split at hrun
    · cases hrun
    · next p' hstep => exact ih (step_oneInterval hstep h) hrun

/-- **One interval.** In every run of the page. -/
theorem run_oneInterval {events : List PageEvent} {p : Page} (hrun : run events start = some p) :
    p.OneInterval ∧ p.intervals.length ≤ 1 := by
  have hone : p.OneInterval := OneInterval.run (p := start) rfl hrun
  refine ⟨hone, ?_⟩
  rw [hone]
  cases p.pollHandle with
  | none => exact Nat.zero_le 1
  | some handle => exact le_rfl

end Page

end Netparent.Web
