/-
  config.c: the configuration, from UCI.

  What libuci finds is an input, `Uci`; `npConfigLoad` goes through its three exits that return 0.
  Every one of them has been through `applyDefaults`, which fills in all that the daemon cannot do
  without (`applyDefaults_filled`) except the CA file of a TLS connection. Only the exit behind
  the section `main` looks at that, and TLS is on unless the section turns it off: without the
  section the configuration cannot be used (`load_usable_iff`).
-/
import Netparent.World
import Netparent.Leases

namespace Netparent

/-! ## UCI -/

inductive UciValue where
  | string (v : Str)
  | list (vs : List Str)

structure UciSection where
  name : Str
  type : Str
  options : List (Str × UciValue)

/-- No context can be allocated, the package `netparent` cannot be loaded, or its sections. -/
inductive Uci where
  | noContext
  | noPackage
  | package (sections : List UciSection)

/-- `struct np_config`. A string is `none` for NULL. -/
structure NpConfig where
  deviceId : Option Str := none
  brokerHost : Option Str := none
  brokerPort : Int := 0
  keepalive : Int := 0
  tlsEnabled : Bool := false
  tlsCaFile : Option Str := none
  tlsCertFile : Option Str := none
  tlsKeyFile : Option Str := none
  tlsInsecure : Bool := false
  username : Option Str := none
  password : Option Str := none
  nftTable : Option Str := none
  nftSet : Option Str := none
  logLevel : Int := 0
  logSyslog : Bool := false
  deriving DecidableEq

/-! ## Options -/

def uciGet (s : UciSection) (name : Str) : Option Str :=
  match s.options.lookup name with
  | some (.string v) => some v
  | _ => none

/-- `strtol(v, NULL, 10)`, with a `long` of 64 bits; 0 when there is no number. -/
def strtol (v : Str) : Int := ((scanLong v).map Prod.fst).getD 0

/-- The cast of a `long` to an `int` of 32 bits. -/
def castInt (n : Int) : Int := n.bmod (2 ^ 32)

def uciGetInt (s : UciSection) (name : Str) (defval : Int) : Int :=
  match uciGet s name with
  | none => defval
  | some v => if v = [] then defval else castInt (strtol v)

/-- `strcasecmp(a, b) == 0` -/
def caseEq (a b : Str) : Bool := a.map tolower == b.map tolower

def uciGetBool (s : UciSection) (name : Str) (defval : Bool) : Bool :=
  match uciGet s name with
  | none => defval
  | some v =>
      if v = [] then defval
      else if v == "1".toList || caseEq v "true".toList || caseEq v "yes".toList ||
        caseEq v "on".toList then true
      else if v == "0".toList || caseEq v "false".toList || caseEq v "no".toList ||
        caseEq v "off".toList then false
      else defval

/-! ## Loading -/

/-- `NP_LOG_INFO` -/
def logInfo : Int := 2

def applyDefaults (cfg : NpConfig) : NpConfig :=
  { cfg with
    deviceId := cfg.deviceId.or (some "router-1".toList)
    brokerHost := cfg.brokerHost.or (some "127.0.0.1".toList)
    brokerPort := if cfg.brokerPort ≤ 0 then (if cfg.tlsEnabled then 8883 else 1883)
      else cfg.brokerPort
    keepalive := if cfg.keepalive ≤ 0 then 30 else cfg.keepalive
    nftTable := cfg.nftTable.or (some "inet netparent".toList)
    nftSet := cfg.nftSet.or (some "blocked_macs".toList)
    logLevel := if cfg.logLevel < 0 then logInfo else cfg.logLevel }

/-- What `np_config_load` sets before it asks libuci. -/
def initialConfig : NpConfig := { tlsEnabled := true, logSyslog := true, logLevel := -1 }

/-- The first section named or typed `main`. -/
def mainSection (sections : List UciSection) : Option UciSection :=
  sections.find? fun s => s.name == "main".toList || s.type == "main".toList

/-- The options of the section. -/
def readSection (s : UciSection) : NpConfig where
  deviceId := uciGet s "device_id".toList
  brokerHost := uciGet s "broker_host".toList
  brokerPort := uciGetInt s "broker_port".toList 0
  keepalive := uciGetInt s "keepalive".toList 0
  tlsEnabled := uciGetBool s "tls_enabled".toList true
  tlsCaFile := uciGet s "tls_ca_file".toList
  tlsCertFile := uciGet s "tls_cert_file".toList
  tlsKeyFile := uciGet s "tls_key_file".toList
  tlsInsecure := uciGetBool s "tls_insecure".toList false
  username := uciGet s "username".toList
  password := uciGet s "password".toList
  nftTable := uciGet s "nft_table".toList
  nftSet := uciGet s "nft_set".toList
  logLevel := uciGetInt s "log_level".toList (-1)
  logSyslog := uciGetBool s "log_syslog".toList true

/-- `np_config_load`: the return value and the configuration. -/
def npConfigLoad (uci : Uci) : Int × NpConfig :=
  match uci with
  | .noContext => (-1, initialConfig)
  | .noPackage => (0, applyDefaults initialConfig)
  | .package sections => match mainSection sections with
      | none => (0, applyDefaults initialConfig)
      | some s =>
          let cfg := applyDefaults (readSection s)
          if cfg.tlsEnabled && cfg.tlsCaFile.isNone then (-1, cfg) else (0, cfg)

/-! ## What the daemon can use -/

/-- All that is needed whether or not the connection uses TLS. -/
structure NpConfig.Filled (cfg : NpConfig) : Prop where
  deviceId : cfg.deviceId ≠ none
  brokerHost : cfg.brokerHost ≠ none
  brokerPort : 0 < cfg.brokerPort
  keepalive : 0 < cfg.keepalive
  nftTable : cfg.nftTable ≠ none
  nftSet : cfg.nftSet ≠ none
  logLevel : 0 ≤ cfg.logLevel

structure NpConfig.Usable (cfg : NpConfig) : Prop extends Filled cfg where
  tlsCaFile : cfg.tlsEnabled = true → cfg.tlsCaFile ≠ none

/-- Every default passes. -/
theorem applyDefaults_filled (cfg : NpConfig) : (applyDefaults cfg).Filled := by
  have hor : ∀ (o : Option Str) (d : Str), o.or (some d) ≠ none := fun o d => by
    cases o <;> exact Option.some_ne_none _
  refine ⟨hor _ _, hor _ _, ?_, ?_, hor _ _, hor _ _, ?_⟩
  · change 0 < if cfg.brokerPort ≤ 0 then (if cfg.tlsEnabled then 8883 else 1883) else cfg.brokerPort
    split
    · split <;> decide
    · omega
  · change 0 < if cfg.keepalive ≤ 0 then 30 else cfg.keepalive
    split <;> omega
  · change 0 ≤ if cfg.logLevel < 0 then logInfo else cfg.logLevel
    split
    · decide
    · omega

/-- Without a section, TLS is on and has no CA file. -/
theorem defaults_unusable : ¬ (applyDefaults initialConfig).Usable := fun h =>
  h.tlsCaFile rfl rfl

/-- The package is there and has a section named or typed `main`; or nothing is loaded at all. -/
def HasMain : Uci → Prop
  | .noContext => True
  | .noPackage => False
  | .package sections => ∃ s ∈ sections, s.name = "main".toList ∨ s.type = "main".toList

theorem mainSection_eq_none {sections : List UciSection} :
    mainSection sections = none ↔ ¬ HasMain (.package sections) := by
  simp [mainSection, HasMain]

theorem load_none {sections : List UciSection} (hs : mainSection sections = none) :
    npConfigLoad (.package sections) = (0, applyDefaults initialConfig) := by
  rw [npConfigLoad, hs]

theorem load_some {sections : List UciSection} {s : UciSection} (hs : mainSection sections = some s) :
    npConfigLoad (.package sections) =
      if (applyDefaults (readSection s)).tlsEnabled && (applyDefaults (readSection s)).tlsCaFile.isNone
      then (-1, applyDefaults (readSection s)) else (0, applyDefaults (readSection s)) := by
  rw [npConfigLoad, hs]

/-- Whatever is returned with 0 has been through `apply_defaults`. -/
theorem load_defaults {uci : Uci} (h0 : (npConfigLoad uci).1 = 0) :
    ∃ cfg, (npConfigLoad uci).2 = applyDefaults cfg := by
  cases uci with
  | noContext => cases h0
  | noPackage => exact ⟨initialConfig, rfl⟩
  | package sections =>
    cases hs : mainSection sections with
    | none => exact ⟨initialConfig, by rw [load_none hs]⟩
    | some s =>
      refine ⟨readSection s, ?_⟩
      rw [load_some hs]
      split <;> rfl

/-- The exit behind the section: a configuration that is returned with 0 is usable. -/
theorem load_section {sections : List UciSection} {s : UciSection}
    (hs : mainSection sections = some s) (h0 : (npConfigLoad (.package sections)).1 = 0) :
    (npConfigLoad (.package sections)).2.Usable := by
  rw [load_some hs] at h0 ⊢
  split at h0
  · cases h0
  · next hca =>
    rw [if_neg hca]
    refine ⟨applyDefaults_filled _, fun htls hnone => hca ?_⟩
    rw [htls, hnone]
    rfl

/-- **Loading.** Returning 0 means a usable configuration exactly when there is a section `main`. -/
theorem load_usable_iff (uci : Uci) :
    ((npConfigLoad uci).1 = 0 → (npConfigLoad uci).2.Usable) ↔ HasMain uci := by
  cases uci with
  | noContext =>
    constructor
    · intro _
      trivial
    · intro _ h0
      cases h0
  | noPackage =>
    constructor
    · intro h
      exact defaults_unusable (h rfl)
    · intro h
      cases h
  | package sections =>
    cases hs : mainSection sections with
    | none =>
      rw [load_none hs]
      constructor
      · intro h
        exact absurd (h rfl) defaults_unusable
      · intro h
        exact absurd h (mainSection_eq_none.mp hs)
    | some s =>
      constructor
      · intro _
        by_contra hno
        rw [mainSection_eq_none.mpr hno] at hs
        cases hs
      · intro _ h0
        exact load_section hs h0

/-- The package is missing: 0 is returned, with TLS on and no CA file. -/
theorem missing_package_unusable :
    (npConfigLoad .noPackage).1 = 0 ∧ ¬ (npConfigLoad .noPackage).2.Usable :=
  ⟨rfl, defaults_unusable⟩

/-! ## The part the rest of the daemon reads -/

def NpConfig.toConfig (cfg : NpConfig) : Option Config :=
  cfg.deviceId.bind fun deviceId =>
    cfg.nftTable.bind fun nftTable => cfg.nftSet.map fun nftSet => ⟨deviceId, nftTable, nftSet⟩

theorem NpConfig.Filled.toConfig {cfg : NpConfig} (h : cfg.Filled) :
    ∃ c, cfg.toConfig = some c := by
  obtain ⟨deviceId, hid⟩ := Option.ne_none_iff_exists'.mp h.deviceId
  obtain ⟨nftTable, htable⟩ := Option.ne_none_iff_exists'.mp h.nftTable
  obtain ⟨nftSet, hset⟩ := Option.ne_none_iff_exists'.mp h.nftSet
  exact ⟨⟨deviceId, nftTable, nftSet⟩, by rw [NpConfig.toConfig, hid, htable, hset]; rfl⟩

/-- After any successful load there is a configuration for the rest of the daemon. -/
theorem load_toConfig {uci : Uci} (h0 : (npConfigLoad uci).1 = 0) :
    ∃ c, (npConfigLoad uci).2.toConfig = some c := by
  obtain ⟨cfg, hcfg⟩ := load_defaults h0
  rw [hcfg]
  exact (applyDefaults_filled cfg).toConfig

end Netparent
