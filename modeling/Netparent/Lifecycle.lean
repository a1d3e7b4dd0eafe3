/-
  main.c, and the client of mqtt.c that it runs.

  `Process` is the daemon from its first step on; what it does to the outside is its log, a list of
  `Deed`s. `LibHost` adds to the machine the calls into libmosquitto other than `mosquitto_publish`. What the
  network and the signals bring is a `Schedule`: the callbacks of every `mosquitto_loop`, its
  return value, and when `np_mqtt_stop` was called. A schedule that ends before the stop is a daemon that
  is still running, so what holds for every schedule holds at all times.
-/
import Netparent.Ensure
import Netparent.Load
import Netparent.Shell
import Netparent.Web.Topics

namespace Netparent

/-! ## libmosquitto -/

/-- A call into libmosquitto other than `mosquitto_publish`. NULL is `none`. -/
inductive LibCall where
  | new (clientId : Str)
  | usernamePwSet (username : Str) (password : Option Str)
  | tlsSet (caFile certFile keyFile : Option Str)
  | tlsInsecureSet
  | willSet (topic : Str) (payload : Json)
  | reconnectDelaySet (min max : Nat)
  | connectAsync (host : Option Str) (port keepalive : Int)
  | subscribe (filter : Str)
  | reconnectAsync
  | disconnect

/-- The machine; `lib` says whether the call returned success, or a client. -/
structure LibHost (κ : Type) extends SetupHost κ where
  lib : LibCall → κ → Bool × κ

/-- A callback of `mosquitto_loop`. -/
inductive Callback where
  | connect (rc : Int)
  | message (topic payload : Str)
  | disconnect (rc : Int)

/-- What `mosquitto_loop` returned. -/
inductive LoopResult where
  | success
  | noConn
  | connLost
  | other
  deriving DecidableEq

/-- One turn of the loop of `np_mqtt_run`; `stop` is what it finds in `m->stop` afterwards. -/
structure Round where
  callbacks : List Callback
  result : LoopResult
  stop : Bool

structure Schedule where
  /-- `np_leases_create` could allocate its watcher. -/
  watcher : Bool
  /-- `np_mqtt_stop` was called before the loop. -/
  stop : Bool
  rounds : List Round
  /-- The callbacks of the ten loops behind the disconnect. -/
  drain : Fin 10 → List Callback

/-! ## The process -/

/-- One thing the daemon does. -/
inductive Deed where
  | act (a : Act)
  | lib (call : LibCall) (ok : Bool)
  | tick

structure Process (κ : Type) where
  host : κ
  leases : Option NpLeases := none
  log : List Deed := []

namespace Process

variable {κ : Type} (h : LibHost κ) (parse : Str → Option Json)

def lib (call : LibCall) (p : Process κ) : Bool × Process κ :=
  ((h.lib call p.host).1,
   { p with host := (h.lib call p.host).2, log := p.log ++ [.lib call (h.lib call p.host).1] })

def publish (cfg : Config) (m : Msg) (p : Process κ) : Process κ :=
  let r := World.publish h.toHost cfg m { host := p.host }
  { p with host := r.2.host, log := p.log ++ r.2.trace.map .act }

/-- A command or a tick. -/
def serve (cfg : Config) (input : Input) (p : Process κ) : Process κ :=
  let r := Netparent.serve h.toHost parse cfg (p.leases, { host := p.host }) input
  { host := r.2.host, leases := r.1, log := p.log ++ r.2.trace.map .act }

end Process

/-! ## mqtt.c -/

section Client

variable {κ : Type} (h : LibHost κ) (parse : Str → Option Json)

def onConnect (cfg : Config) (rc : Int) (p : Process κ) : Process κ :=
  if rc ≠ 0 then p
  else
    let s := p.lib h (.subscribe (cmdFilter cfg))
    if s.1 = false then s.2 else s.2.publish h cfg (.status true)

def setUser (np : NpConfig) (p : Process κ) : Bool × Process κ :=
  match np.username with
  | none => (true, p)
  | some name => p.lib h (.usernamePwSet name np.password)

def setTls (np : NpConfig) (p : Process κ) : Bool × Process κ :=
  if np.tlsEnabled then
    let tls := p.lib h (.tlsSet np.tlsCaFile np.tlsCertFile np.tlsKeyFile)
    if tls.1 && np.tlsInsecure then (true, (tls.2.lib h .tlsInsecureSet).2) else tls
  else (true, p)

/-- A will that cannot be set is only logged. -/
def npMqttCreate (np : NpConfig) (cfg : Config) (p : Process κ) : Bool × Process κ :=
  let client := p.lib h (.new (snprintf 64 ("netparent-".toList ++ cfg.deviceId)))
  if client.1 = false then client
  else
    let user := setUser h np client.2
    if user.1 = false then user
    else
      let tls := setTls h np user.2
      if tls.1 = false then tls
      else
        let will := tls.2.lib h
          (.willSet ((Msg.status false).topic cfg) ((Msg.status false).payload cfg))
        (true, (will.2.lib h (.reconnectDelaySet 2 120)).2)

/-- `on_connect` and `on_message`; `on_disconnect` only logs. -/
def callback (cfg : Config) (p : Process κ) : Callback → Process κ
  | .connect rc => onConnect h cfg rc p
  | .message topic payload => p.serve h parse cfg (.message topic payload)
  | .disconnect _ => p

def mosquittoLoop (cfg : Config) (callbacks : List Callback) (p : Process κ) : Process κ :=
  callbacks.foldl (callback h parse cfg) p

/-- The tick callback is `np_leases_poll`. -/
def tick (cfg : Config) (p : Process κ) : Process κ :=
  { p with log := p.log ++ [Deed.tick] }.serve h parse cfg .poll

def turn (cfg : Config) (r : Round) (p : Process κ) : Process κ :=
  let q := mosquittoLoop h parse cfg r.callbacks p
  let q := if r.result = .noConn ∨ r.result = .connLost then (q.lib h .reconnectAsync).2 else q
  tick h parse cfg q

/-- `while (!m->stop)`: whether it ended, and the process then. -/
def mainLoop (cfg : Config) : (stop : Bool) → List Round → Process κ → Bool × Process κ
  | true, _, p => (true, p)
  | false, [], p => (false, p)
  | false, r :: rs, p => mainLoop cfg r.stop rs (turn h parse cfg r p)

/-- Behind the loop. -/
def shutdown (cfg : Config) (drain : Fin 10 → List Callback) (p : Process κ) : Process κ :=
  let p := p.publish h cfg (.status false)
  let p := (p.lib h .disconnect).2
  (List.finRange 10).foldl (fun p i => mosquittoLoop h parse cfg (drain i) p) p

/-- `np_mqtt_run`; `none` while it has not returned. -/
def npMqttRun (np : NpConfig) (cfg : Config) (sched : Schedule) (p : Process κ) :
    Option Int × Process κ :=
  let connect := p.lib h (.connectAsync np.brokerHost np.brokerPort np.keepalive)
  if connect.1 = false then (some (-1), connect.2)
  else
    let loop := mainLoop h parse cfg sched.stop sched.rounds connect.2
    if loop.1 then (some 0, shutdown h parse cfg sched.drain loop.2) else (none, loop.2)

/-! ## main.c -/

/-- What `getopt(argc, argv, "fh")` returns. -/
inductive Opt where
  | f
  | h
  | unknown
  deriving DecidableEq

/-- The exit code of the option loop, if it exits. -/
def parseOpts : List Opt → Option Int
  | [] => none
  | .f :: opts => parseOpts opts
  | .h :: _ => some 0
  | .unknown :: _ => some 2

/-- The names `np_config_load` has filled in. -/
def loadedConfig (uci : Uci) (h0 : (npConfigLoad uci).1 = 0) : Config :=
  (npConfigLoad uci).2.toConfig.get (by
    obtain ⟨c, hc⟩ := load_toConfig h0
    rw [hc]
    rfl)

theorem loadedConfig_eq {uci : Uci} {cfg : Config}
    (hcfg : (npConfigLoad uci).1 = 0 → (npConfigLoad uci).2.toConfig = some cfg)
    (h0 : (npConfigLoad uci).1 = 0) : loadedConfig uci h0 = cfg := by
  unfold loadedConfig
  simp only [hcfg h0, Option.get_some]

/-- From the client on. -/
def runClient (np : NpConfig) (cfg : Config) (sched : Schedule) (p : Process κ) :
    Option Int × Process κ :=
  let create := npMqttCreate h np cfg p
  if create.1 = false then (some 1, create.2)
  else
    let leases := if sched.watcher then some (npLeasesCreate (some "/tmp/dhcp.leases".toList)) else none
    let run := npMqttRun h parse np cfg sched { create.2 with leases := leases }
    (run.1.map fun rc => if rc = 0 then 0 else 1, run.2)

/-- `main`: the exit code, `none` while it is running, and what it has done. -/
def npMain (opts : List Opt) (uci : Uci) (sched : Schedule) (k : κ) : Option Int × Process κ :=
  match parseOpts opts with
  | some code => (some code, { host := k })
  | none =>
      if h0 : (npConfigLoad uci).1 = 0 then
        let cfg := loadedConfig uci h0
        let ensure := npNftEnsure h.toSetupHost cfg { host := k }
        let p : Process κ := { host := ensure.2.host, log := ensure.2.trace.map .act }
        if ensure.1 ≠ 0 then (some 1, p) else runClient h parse (npConfigLoad uci).2 cfg sched p
      else (some 1, { host := k })

end Client

/-! ## A start -/

/-- A package with the section `main`, which turns TLS off. -/
def startUci : Uci := .package [⟨"main".toList, "netparent".toList, [("tls_enabled".toList, .string ['0'])]⟩]

theorem startUci_toConfig : (npConfigLoad startUci).2.toConfig = some defaultConfig := rfl

/-- The machine on which every command of the set-up is applied, and `add element` once there is a set. -/
def startPopen (cmd : Str) (r : Ruleset) : Option Proc × Ruleset :=
  match operandOf (Sim.addOffset defaultConfig) (fun m => nftCmd (addElementArgs defaultConfig m.text)) cmd with
  | some m => match r.withElement m with
      | some r' => (some ⟨[], 0⟩, r')
      | none => (some ⟨[], 256⟩, r)
  | none => (setupHost defaultConfig fun _ => true).popen cmd r

/-- libmosquitto takes every call, but not TLS without a CA. -/
def startHost : LibHost Ruleset :=
  { setupHost defaultConfig fun _ => true with
    popen := startPopen
    lib := fun call r => (match call with | .tlsSet none _ _ => false | _ => true, r) }

theorem startPopen_setup {cmd : Str} (hno : operandOf (Sim.addOffset defaultConfig)
    (fun m => nftCmd (addElementArgs defaultConfig m.text)) cmd = none) (r : Ruleset) :
    startPopen cmd r = (setupHost defaultConfig fun _ => true).popen cmd r := by
  rw [startPopen, hno]

theorem startHost_law : SetupLaw startHost.toSetupHost defaultConfig id := by
  have hlaw := setupHost_law fun _ => true
  have hpopen : startHost.popen = startPopen := rfl
  refine ⟨hlaw.script, fun r => ?_, fun r => ?_, fun r => ?_⟩
  · rw [hpopen, startPopen_setup (by decide +kernel)]
    exact hlaw.flush r
  · rw [hpopen, startPopen_setup (by decide +kernel)]
    exact hlaw.saddr r
  · rw [hpopen, startPopen_setup (by decide +kernel)]
    exact hlaw.daddr r

/-- Connected, an address blocked, and still running. -/
def connectedSchedule : Schedule where
  watcher := true
  stop := false
  rounds := [⟨[.connect 0], .success, false⟩,
    ⟨[.message "netparent/router-1/cmd/block".toList numberedPayload], .success, false⟩]
  drain := fun _ => []

/-- Stopped after the network was lost. -/
def stoppedSchedule : Schedule :=
  { connectedSchedule with
    rounds := connectedSchedule.rounds ++ [⟨[.disconnect 7], .connLost, true⟩] }

end Netparent
