/-
  mqttbus/bus.go: the handlers of the three subscriptions, and the commands sent.

  `parse` stands for encoding/json's parsing of the payload's text, `none` when it is not a
  JSON document; the typed decoding that follows is `Lib/Json`. A handler whose payload does
  not decode logs and returns.
-/
import Netparent.Web.Store

namespace Netparent.Web

/-- The `<id>` of `netparent/<id>/...`; empty when there is none. -/
def routerIDFromTopic (topic : Str) : Str :=
  let parts := topic.splitOn '/'
  if parts.length < 2 ∨ parts.head? ≠ some "netparent".toList then []
  else parts.getD 1 []

/-! ## Payloads -/

structure StatusPayload where
  online : Bool := false

def StatusPayload.set (p : StatusPayload) (key : Str) (j : Json) : Option StatusPayload :=
  if Json.isField "online".toList key then
    (Json.decodeBool p.online j).map fun v => { p with online := v }
  else some p

structure DevicesPayload where
  updatedAt : Int := 0
  devices : List (Option Device) := []
  /-- What the array behind `Devices` holds beyond them, from an earlier key of that name. -/
  stale : List (Option Device) := []

/-- `*store.Device`. -/
def decodeDevicePtr : Option Device → Json → Option (Option Device) :=
  Json.decodePtr Device.decode {}

def DevicesPayload.set (p : DevicesPayload) (key : Str) (j : Json) : Option DevicesPayload :=
  if Json.isField "updated_at".toList key then
    (Json.decodeInt64 p.updatedAt j).map fun v => { p with updatedAt := v }
  else if Json.isField "devices".toList key then
    (Json.decodeSlice decodeDevicePtr none p.devices p.stale j).map fun v =>
      { p with devices := v.1, stale := v.2 }
  else some p

structure EventPayload where
  event : Str := []
  device : Option Device := none
  mac : Str := []

def EventPayload.set (p : EventPayload) (key : Str) (j : Json) : Option EventPayload :=
  if Json.isField "event".toList key then
    (Json.decodeString p.event j).map fun v => { p with event := v }
  else if Json.isField "device".toList key then
    (decodeDevicePtr p.device j).map fun v => { p with device := v }
  else if Json.isField "mac".toList key then
    (Json.decodeString p.mac j).map fun v => { p with mac := v }
  else some p

/-! ## Handlers -/

section Handlers

variable (parse : Str → Option Json)

/-- `json.Unmarshal` into each of the three payload structs. -/
def unmarshalStatus (payload : Str) : Option StatusPayload :=
  (parse payload).bind (Json.decodeStruct StatusPayload.set {})

def unmarshalDevices (payload : Str) : Option DevicesPayload :=
  (parse payload).bind (Json.decodeStruct DevicesPayload.set {})

def unmarshalEvent (payload : Str) : Option EventPayload :=
  (parse payload).bind (Json.decodeStruct EventPayload.set {})

def handleStatus (topic payload : Str) (now : Int) (s : Store) : Except Fault Store :=
  let id := routerIDFromTopic topic
  if id = [] then .ok s
  else match unmarshalStatus parse payload with
    | none => .ok s
    | some p => .ok (s.setOnline id p.online now)

def handleDevices (topic payload : Str) (now : Int) (s : Store) : Except Fault Store :=
  let id := routerIDFromTopic topic
  if id = [] then .ok s
  else match unmarshalDevices parse payload with
    | none => .ok s
    | some p => s.replaceDevices id p.updatedAt p.devices now

def handleDeviceEvent (topic payload : Str) (now : Int) (s : Store) : Except Fault Store :=
  let id := routerIDFromTopic topic
  if id = [] then .ok s
  else match unmarshalEvent parse payload with
    | none => .ok s
    | some p =>
        if p.event = "added".toList ∨ p.event = "changed".toList then
          if p.device ≠ none then s.upsertDevice id p.device now else .ok s
        else if p.event = "removed".toList then
          if p.mac ≠ [] then .ok (s.removeDevice id p.mac now) else .ok s
        else .ok s

/-- The three subscriptions of `onConnect`. -/
inductive Sub where
  | status
  | devices
  | event
  deriving DecidableEq, Repr

def handle : Sub → (topic payload : Str) → (now : Int) → Store → Except Fault Store
  | .status => handleStatus parse
  | .devices => handleDevices parse
  | .event => handleDeviceEvent parse

end Handlers

/-! ## Commands -/

/-- A command handed to the broker connection. -/
structure Command where
  topic : Str
  body : Json

/-- `publishCmd`: the error, if any, and the command handed to the client, if it came to
    that. `broker` is the outcome of the publish token (`none` for success, else the error's
    text); `stamp` is `time.Now().UnixNano()` in decimal. `json.Marshal` sorts the keys. -/
def publishCmd (broker : Command → Option Str) (stamp routerId action mac : Str) :
    Option Str × Option Command :=
  if routerId = [] ∨ action = [] then (some "router and action required".toList, none)
  else
    let cmd : Command :=
      { topic := "netparent/".toList ++ routerId ++ "/cmd/".toList ++ action
        body := .obj [("mac".toList, .str mac), ("req_id".toList, .str ("web-".toList ++ stamp))] }
    (broker cmd, some cmd)

def sendBlock (broker : Command → Option Str) (stamp routerId mac : Str) :
    Option Str × Option Command :=
  publishCmd broker stamp routerId "block".toList mac

def sendUnblock (broker : Command → Option Str) (stamp routerId mac : Str) :
    Option Str × Option Command :=
  publishCmd broker stamp routerId "unblock".toList mac

end Netparent.Web
