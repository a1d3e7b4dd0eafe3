/-
  store.go: the web app's view of the routers and their devices.

  A Go map from strings is a `Finmap`; `*Device` is an `Option`, with `none` for nil, both as
  an argument and as a value of a device map. Following a nil pointer is `Fault.nilDeref`,
  which in Go ends the process. Each method runs under the store's mutex, so it is one step;
  `now` is what `time.Now().Unix()` returns in it.
-/
import Mathlib
import Netparent.Text
import Netparent.Lib.Json

namespace Netparent.Web

abbrev GoMap (β : Type) := Finmap fun _ : Str => β

structure Device where
  mac : Str := []
  ip : Str := []
  hostname : Str := []
  blocked : Bool := false
  leaseExpires : Int := 0
  lastSeen : Int := 0
  vendor : Str := []
  deriving DecidableEq, Repr

/-- One member of a device object, decoded into the field its key names. -/
def Device.set (d : Device) (key : Str) (j : Json) : Option Device :=
  if Json.isField "mac".toList key then
    (Json.decodeString d.mac j).map fun v => { d with mac := v }
  else if Json.isField "ip".toList key then
    (Json.decodeString d.ip j).map fun v => { d with ip := v }
  else if Json.isField "hostname".toList key then
    (Json.decodeString d.hostname j).map fun v => { d with hostname := v }
  else if Json.isField "blocked".toList key then
    (Json.decodeBool d.blocked j).map fun v => { d with blocked := v }
  else if Json.isField "lease_expires".toList key then
    (Json.decodeInt64 d.leaseExpires j).map fun v => { d with leaseExpires := v }
  else if Json.isField "last_seen".toList key then
    (Json.decodeInt64 d.lastSeen j).map fun v => { d with lastSeen := v }
  else if Json.isField "vendor".toList key then
    (Json.decodeString d.vendor j).map fun v => { d with vendor := v }
  else some d

def Device.decode : Device → Json → Option Device := Json.decodeStruct Device.set

/-- A device map: `map[string]*Device`. -/
abbrev Devices := GoMap (Option Device)

structure Router where
  id : Str
  online : Bool := false
  lastUpdate : Int := 0
  devicesUpdate : Int := 0
  devices : Devices := ∅

/-- `map[string]*Router`; every router in it was made by `getOrCreate`, so none is nil. -/
abbrev Store := GoMap Router

inductive Fault where
  | nilDeref
  deriving DecidableEq, Repr

/-! ## The device map -/

/-- `devices[d.MAC] = d`. -/
def setDevice (m : Devices) : Option Device → Except Fault Devices
  | some d => .ok (m.insert d.mac (some d))
  | none => .error .nilDeref

def setDevices : List (Option Device) → Devices → Except Fault Devices
  | [], m => .ok m
  | d :: ds, m => match setDevice m d with
      | .error e => .error e
      | .ok m' => setDevices ds m'

/-- A map with a nil device in it: reading the device through it is a fault. -/
def HasNil (m : Devices) : Prop := ∃ k ∈ m.keys, m.lookup k = some none

instance (m : Devices) : Decidable (HasNil m) := inferInstanceAs (Decidable (∃ k ∈ m.keys, _))

/-! ## The store's methods -/

namespace Store

def getOrCreate (s : Store) (id : Str) : Router := (s.lookup id).getD { id := id }

def setOnline (s : Store) (id : Str) (online : Bool) (now : Int) : Store :=
  s.insert id { s.getOrCreate id with online := online, lastUpdate := now }

def replaceDevices (s : Store) (id : Str) (updatedAt : Int) (devices : List (Option Device))
    (now : Int) : Except Fault Store :=
  match setDevices devices ∅ with
  | .error e => .error e
  | .ok m => .ok <| s.insert id
      { s.getOrCreate id with
        devices := m
        devicesUpdate := if updatedAt > 0 then updatedAt else now
        lastUpdate := now }

def upsertDevice (s : Store) (id : Str) (d : Option Device) (now : Int) : Except Fault Store :=
  match setDevice (s.getOrCreate id).devices d with
  | .error e => .error e
  | .ok m => .ok <| s.insert id { s.getOrCreate id with devices := m, lastUpdate := now }

def removeDevice (s : Store) (id mac : Str) (now : Int) : Store :=
  match s.lookup id with
  | none => s
  | some r => s.insert id { r with devices := r.devices.erase mac, lastUpdate := now }

/-- `Router(id)`: a deep copy, which reads every device of the router. -/
def router (s : Store) (id : Str) : Except Fault (Option Router) :=
  match s.lookup id with
  | none => .ok none
  | some r => if HasNil r.devices then .error .nilDeref else .ok (some r)

/-- The devices the store shows for a router. -/
def devicesOf (s : Store) (id : Str) : Devices := (s.getOrCreate id).devices

def onlineOf (s : Store) (id : Str) : Bool := (s.getOrCreate id).online

theorem getOrCreate_some {s : Store} {id : Str} {r : Router} (h : s.lookup id = some r) :
    s.getOrCreate id = r := by
  rw [getOrCreate, h]
  rfl

theorem devicesOf_none {s : Store} {id : Str} (h : s.lookup id = none) : s.devicesOf id = ∅ := by
  rw [devicesOf, getOrCreate, h]
  rfl

theorem devicesOf_some {s : Store} {id : Str} {r : Router} (h : s.lookup id = some r) :
    s.devicesOf id = r.devices := by
  rw [devicesOf, getOrCreate_some h]

theorem removeDevice_none {s : Store} {id : Str} (h : s.lookup id = none) (mac : Str) (now : Int) :
    s.removeDevice id mac now = s := by
  rw [removeDevice, h]

theorem removeDevice_some {s : Store} {id : Str} {r : Router} (h : s.lookup id = some r)
    (mac : Str) (now : Int) : s.removeDevice id mac now =
      s.insert id { r with devices := r.devices.erase mac, lastUpdate := now } := by
  rw [removeDevice, h]

/-- A copy is of the entry. -/
theorem lookup_of_router {s : Store} {id : Str} {r : Router} (h : s.router id = .ok (some r)) :
    s.lookup id = some r := by
  unfold router at h
  split at h
  · cases h
  · next r' hr =>
    split at h
    · cases h
    · rw [hr]
      exact Except.ok.inj h

end Store

end Netparent.Web
