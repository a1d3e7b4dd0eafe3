/-
  handler.c: one MQTT command. The topic gives the action, the payload the MAC and the
  request id, and each action answers on `response/<req_id>` when there is one.

  `parse` stands for `cJSON_Parse`, a function of the payload up to its first NUL. Topics and the
  configuration's values are C strings, which hold no NUL.
-/
import Netparent.Leases

namespace Netparent

/-- The action segment of `netparent/<id>/cmd/<action>`. -/
def parseAction (topic deviceId : Str) : Option Str :=
  let cmdTopic := "netparent/".toList ++ deviceId ++ "/cmd/".toList
  if cmdTopic.length ≥ 128 then none
  else if topic.take cmdTopic.length ≠ cmdTopic then none
  else
    let action := topic.drop cmdTopic.length
    if action = [] then none else some action

/-- The body `reply` publishes. -/
def replyBody (ok : Bool) (action detailKey detailVal : Str) : Json := .obj
  [("ok".toList, .bool ok), ("action".toList, .str action), (detailKey, .str detailVal)]

/-- The body of a `cmd/list` answer. -/
def listBody (action : Str) (macs : List Str) : Json := .obj
  [("ok".toList, .bool true), ("action".toList, .str action),
   ("blocked".toList, .arr (macs.map .str))]

section Host

variable {κ : Type} (h : Host κ) (parse : Str → Option Json)

/-- Nothing is published without a request id. -/
def reply (cfg : Config) (reqId : Option Str) (ok : Bool) (action detailKey detailVal : Str)
    (w : World κ) : World κ :=
  match reqId with
  | none => w
  | some r =>
      if r = [] then w
      else (w.publish h cfg (.response r (replyBody ok action detailKey detailVal))).2

/-- `np_leases_republish(h->leases)`, which returns at once when there is no watcher. -/
def republishLeases (cfg : Config) (leases : Option NpLeases) (w : World κ) :
    Option NpLeases × World κ :=
  match leases with
  | none => (none, w)
  | some l => (some (npLeasesRepublish h cfg l w).1, (npLeasesRepublish h cfg l w).2)

/-- The two commands that change the set differ in the nft wrapper and the error text. -/
def toggleCommand (nft : Config → Str → World κ → Int × World κ) (failed : Str) (cfg : Config)
    (leases : Option NpLeases) (action : Str) (mac reqId : Option Str) (w : World κ) :
    Option NpLeases × World κ :=
  match mac with
  | none => (leases, reply h cfg reqId false action "error".toList "mac required".toList w)
  | some mac =>
      let r := nft cfg mac w
      if r.1 ≠ 0 then (leases, reply h cfg reqId false action "error".toList failed r.2)
      else republishLeases h cfg leases (reply h cfg reqId true action "mac".toList mac r.2)

def blockCommand : (cfg : Config) → (leases : Option NpLeases) → (action : Str) →
    (mac reqId : Option Str) → World κ → Option NpLeases × World κ :=
  toggleCommand h (npNftBlock h) "nft block failed".toList

def unblockCommand : (cfg : Config) → (leases : Option NpLeases) → (action : Str) →
    (mac reqId : Option Str) → World κ → Option NpLeases × World κ :=
  toggleCommand h (npNftUnblock h) "nft unblock failed".toList

def statusCommand (cfg : Config) (action : Str) (mac reqId : Option Str) (w : World κ) : World κ :=
  match mac with
  | none => reply h cfg reqId false action "error".toList "mac required".toList w
  | some mac =>
      let s := npNftIsBlocked h cfg mac w
      if s.1 < 0 then reply h cfg reqId false action "error".toList "lookup failed".toList s.2
      else reply h cfg reqId true action "blocked".toList
        (if s.1 ≠ 0 then "true".toList else "false".toList) s.2

/-- The return value of `np_nft_list` is not looked at, and an empty request id is not
    left out here as it is in `reply`. -/
def listCommand (cfg : Config) (action : Str) (reqId : Option Str) (w : World κ) : World κ :=
  let macs := npNftList h cfg w
  match reqId with
  | none => macs.2
  | some r => (macs.2.publish h cfg (.response r (listBody action (macs.1.getD [])))).2

/-- The body as a JSON document; an empty payload stands for an empty object. -/
def commandJson (payload : Str) : Option Json :=
  if payload.length > 0 then parse (cstr payload) else some (.obj [])

def npHandleMessage (cfg : Config) (leases : Option NpLeases) (topic payload : Str)
    (w : World κ) : Option NpLeases × World κ :=
  match parseAction topic cfg.deviceId with
  | none => (leases, w)
  | some action => match commandJson parse payload with
      | none => (leases, w)
      | some json =>
          let mac := Json.valuestring (json.getObjectItemCaseSensitive "mac".toList)
          let reqId := Json.valuestring (json.getObjectItemCaseSensitive "req_id".toList)
          if action = "block".toList then blockCommand h cfg leases action mac reqId w
          else if action = "unblock".toList then unblockCommand h cfg leases action mac reqId w
          else if action = "status".toList then (leases, statusCommand h cfg action mac reqId w)
          else if action = "list".toList then (leases, listCommand h cfg action reqId w)
          else if action = "ping".toList then
            (leases, reply h cfg reqId true action "pong".toList "1".toList w)
          else (leases, reply h cfg reqId false action "error".toList "unknown action".toList w)

end Host

end Netparent
