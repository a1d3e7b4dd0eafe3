/-
  What the daemon sees of the machine it runs on, and the four messages it publishes.

  `Host` is the machine: child processes, the lease file, the clock, libmosquitto. It has a
  state of its own, of any type `κ`, that every call may read and change, so a host can hold
  the nftables set, a schedule of failures, or a file that is rewritten while the daemon
  runs. Nothing is assumed of it here; a result that needs the machine to behave in some way
  says so with a hypothesis on the host.

  `World` pairs the host's state with the trace of what the daemon has asked for so far:
  files read, command strings handed to `popen` or `system`, messages handed to libmosquitto
  with the outcome.
-/
import Netparent.Device

namespace Netparent

/-- The part of `struct np_config` these modules read. -/
structure Config where
  deviceId : Str
  nftTable : Str
  nftSet : Str
  deriving Repr

/-- What `apply_defaults` fills in. -/
def defaultConfig : Config :=
  { deviceId := "router-1".toList
    nftTable := "inet netparent".toList
    nftSet := "blocked_macs".toList }

/-! ## Messages (mqtt.c) -/

inductive Msg where
  | status (online : Bool)
  | devices (updatedAt : Int) (list : List Dev)
  | event (e : Event)
  | response (suffix : Str) (body : Json)

/-- The topic each `np_mqtt_publish_*` builds; `devices` and `event` go through a fixed
    buffer. -/
def Msg.topic (cfg : Config) : Msg → Str
  | .status _ => "netparent/".toList ++ cfg.deviceId ++ "/status".toList
  | .devices .. => snprintf 128 ("netparent/".toList ++ cfg.deviceId ++ "/devices".toList)
  | .event _ => snprintf 160 ("netparent/".toList ++ cfg.deviceId ++ "/event/device".toList)
  | .response suffix _ =>
      "netparent/".toList ++ cfg.deviceId ++ "/response/".toList ++ suffix

theorem topic_status (cfg : Config) (online : Bool) : (Msg.status online).topic cfg =
    "netparent/".toList ++ cfg.deviceId ++ "/status".toList := rfl

theorem topic_devices (cfg : Config) (updatedAt : Int) (list : List Dev) :
    (Msg.devices updatedAt list).topic cfg =
      snprintf 128 ("netparent/".toList ++ cfg.deviceId ++ "/devices".toList) := rfl

theorem topic_event (cfg : Config) (e : Event) : (Msg.event e).topic cfg =
    snprintf 160 ("netparent/".toList ++ cfg.deviceId ++ "/event/device".toList) := rfl

theorem topic_response (cfg : Config) (suffix : Str) (body : Json) :
    (Msg.response suffix body).topic cfg =
      "netparent/".toList ++ cfg.deviceId ++ "/response/".toList ++ suffix := rfl

def Msg.payload (cfg : Config) : Msg → Json
  | .status online => .obj [("online".toList, .bool online)]
  | .devices updatedAt list => snapshotJson cfg.deviceId updatedAt list
  | .event e => eventJson e
  | .response _ body => body

theorem payload_devices (cfg : Config) (updatedAt : Int) (list : List Dev) :
    (Msg.devices updatedAt list).payload cfg = snapshotJson cfg.deviceId updatedAt list := rfl

theorem payload_event (cfg : Config) (e : Event) : (Msg.event e).payload cfg = eventJson e := rfl

def Msg.retained : Msg → Bool
  | .status _ => true
  | .devices .. => true
  | .event _ => false
  | .response .. => false

/-! ## The host -/

/-- A child process read to the end: its output and `pclose`'s status. -/
structure Proc where
  out : Str
  status : Int

structure Stat where
  mtime : Int
  size : Int
  deriving DecidableEq

/-- The machine, with `none` or `false` for a call that fails. -/
structure Host (κ : Type) where
  popen : Str → κ → Option Proc × κ
  system : Str → κ → Int × κ
  fopen : Str → κ → Option Str
  stat : Str → κ → Option Stat
  time : κ → Int × κ
  /-- `mosquitto_publish(topic, payload, retain)` returned `MOSQ_ERR_SUCCESS`. -/
  publish : Str → Json → Bool → κ → Bool × κ

/-- One thing the daemon asked of the host. -/
inductive Act where
  | read (path : Str) (content : Option Str)
  | exec (cmd : Str)
  | publish (m : Msg) (ok : Bool)

structure World (κ : Type) where
  host : κ
  trace : List Act := []

namespace World

variable {κ : Type} (h : Host κ)

def popen (cmd : Str) (w : World κ) : Option Proc × World κ :=
  ((h.popen cmd w.host).1, ⟨(h.popen cmd w.host).2, w.trace ++ [.exec cmd]⟩)

def system (cmd : Str) (w : World κ) : Int × World κ :=
  ((h.system cmd w.host).1, ⟨(h.system cmd w.host).2, w.trace ++ [.exec cmd]⟩)

def fopen (path : Str) (w : World κ) : Option Str × World κ :=
  (h.fopen path w.host, ⟨w.host, w.trace ++ [.read path (h.fopen path w.host)]⟩)

def time (w : World κ) : Int × World κ :=
  ((h.time w.host).1, ⟨(h.time w.host).2, w.trace⟩)

/-- The tail of each `np_mqtt_publish_*`. -/
def publish (cfg : Config) (m : Msg) (w : World κ) : Bool × World κ :=
  ((h.publish (m.topic cfg) (m.payload cfg) m.retained w.host).1,
   ⟨(h.publish (m.topic cfg) (m.payload cfg) m.retained w.host).2,
    w.trace ++ [.publish m (h.publish (m.topic cfg) (m.payload cfg) m.retained w.host).1]⟩)

end World

/-! ## Views of a trace -/

/-- The messages handed to libmosquitto, in order, with the outcome. -/
def sentOf (trace : List Act) : List (Msg × Bool) :=
  trace.filterMap fun | .publish m ok => some (m, ok) | _ => none

/-- The command strings handed to `popen` or `system`, in order. -/
def issuedOf (trace : List Act) : List Str :=
  trace.filterMap fun | .exec cmd => some cmd | _ => none

@[simp] theorem sentOf_append (a b : List Act) : sentOf (a ++ b) = sentOf a ++ sentOf b :=
  List.filterMap_append

@[simp] theorem issuedOf_append (a b : List Act) : issuedOf (a ++ b) = issuedOf a ++ issuedOf b :=
  List.filterMap_append

@[simp] theorem sentOf_publish (m : Msg) (ok : Bool) : sentOf [.publish m ok] = [(m, ok)] := rfl
@[simp] theorem sentOf_exec (cmd : Str) : sentOf [.exec cmd] = [] := rfl
@[simp] theorem sentOf_read (p : Str) (c : Option Str) : sentOf [.read p c] = [] := rfl

end Netparent
