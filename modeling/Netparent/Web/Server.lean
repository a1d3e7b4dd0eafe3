/-
  server/server.go: the block and unblock requests.

  `strings.ToLower` is modelled on ASCII letters. The letters outside ASCII it maps into
  ASCII become `i` or `k`, which the pattern rejects as it rejects the letters themselves.
-/
import Netparent.Mac
import Netparent.Web.Bus

namespace Netparent.Web

/-- `^([0-9a-fA-F]{2}[:-]){5}[0-9a-fA-F]{2}$` -/
def macRegexp (s : Str) : Bool := groups isxdigit isSep 5 s

structure Response where
  status : Nat
  body : Json

/-- `doBlockUnblock`: the response, and the command handed to the client, if any. -/
def doBlockUnblock (broker : Command → Option Str) (stamp id mac : Str) (block : Bool) :
    Response × Option Command :=
  let mac := mac.map tolower
  if macRegexp mac = false then
    (⟨400, .obj [("error".toList, .str "invalid mac".toList)]⟩, none)
  else
    let r := if block then sendBlock broker stamp id mac else sendUnblock broker stamp id mac
    match r.1 with
    | some err => (⟨502, .obj [("error".toList, .str err)]⟩, r.2)
    | none => (⟨200, .obj [("mac".toList, .str mac), ("ok".toList, .bool true)]⟩, r.2)

end Netparent.Web
