/-
  config/config.go: the settings of the web app, read from environment variables.

  `Settings` keeps those that `Load` checks and those the login uses. Nothing is asked of
  the username: any value of its variable is accepted (`load_any_username`).
-/
import Netparent.Text
import Netparent.Lib.Decimal

namespace Netparent.Web

/-- The part of `Config` these modules read. -/
structure Settings where
  adminUsername : Str
  adminPasswordHash : Str
  sessionSecret : Str
  sessionMaxAge : Int
  cookieSecure : Bool
  mqttBroker : Str
  deriving DecidableEq

/-- `strconv.ParseInt(s, 10, 64)` and `strconv.Atoi`, with `none` for an error. -/
def parseInt (s : Str) : Option Int :=
  (Decimal.parse s).filter fun n => -2 ^ 63 ≤ n ∧ n < 2 ^ 63

section Env

-- `lookup` is `os.LookupEnv`
variable (lookup : Str → Option Str)

/-- `os.Getenv`. -/
def getenv (key : Str) : Str := (lookup key).getD []

def env (key fallback : Str) : Str := (lookup key).getD fallback

def envInt (key : Str) (fallback : Int) : Int := ((lookup key).bind parseInt).getD fallback

def envBool (key : Str) (fallback : Bool) : Bool :=
  match lookup key with
  | none => fallback
  | some v =>
      if v ∈ ["1".toList, "true".toList, "TRUE".toList, "yes".toList, "on".toList] then true
      else if v ∈ ["0".toList, "false".toList, "FALSE".toList, "no".toList, "off".toList] then false
      else fallback

/-- The names of the required variables that are empty, as `Load` collects them. -/
def missingVars (c : Settings) : List Str :=
  (if c.adminPasswordHash = [] then ["NETPARENT_ADMIN_PASSWORD_HASH".toList] else []) ++
  (if c.sessionSecret = [] then ["NETPARENT_SESSION_SECRET".toList] else []) ++
  (if c.mqttBroker = [] then ["NETPARENT_MQTT_BROKER".toList] else [])

def settings : Settings where
  adminUsername := env lookup "NETPARENT_ADMIN_USERNAME".toList "admin".toList
  adminPasswordHash := getenv lookup "NETPARENT_ADMIN_PASSWORD_HASH".toList
  sessionSecret := getenv lookup "NETPARENT_SESSION_SECRET".toList
  sessionMaxAge := envInt lookup "NETPARENT_SESSION_MAX_AGE".toList (8 * 60 * 60)
  cookieSecure := envBool lookup "NETPARENT_COOKIE_SECURE".toList false
  mqttBroker := env lookup "NETPARENT_MQTT_BROKER".toList []

/-- `Load`, with the text of its error. -/
def load : Except Str Settings :=
  let c := settings lookup
  if missingVars c ≠ [] then
    .error ("missing required env vars: [".toList ++ List.intercalate [' '] (missingVars c) ++ [']'])
  else if c.sessionSecret.length < 16 then
    .error "NETPARENT_SESSION_SECRET must be at least 16 characters".toList
  else .ok c

end Env

/-- The environment with another value for the username's variable. -/
def withUsername (lookup : Str → Option Str) (username key : Str) : Option Str :=
  if key = "NETPARENT_ADMIN_USERNAME".toList then some username else lookup key

/-- What is accepted is accepted with any username. -/
theorem load_any_username {lookup : Str → Option Str} {c : Settings} (h : load lookup = .ok c)
    (username : Str) :
    load (withUsername lookup username) = .ok { c with adminUsername := username } := by
  have hother : ∀ key, key ≠ "NETPARENT_ADMIN_USERNAME".toList →
      withUsername lookup username key = lookup key := fun key hkey => if_neg hkey
  have hname : withUsername lookup username "NETPARENT_ADMIN_USERNAME".toList = some username :=
    if_pos rfl
  have hsettings : settings (withUsername lookup username) =
      { settings lookup with adminUsername := username } := by
    unfold settings getenv env envInt envBool
    rw [hname, hother "NETPARENT_ADMIN_PASSWORD_HASH".toList (by decide),
      hother "NETPARENT_SESSION_SECRET".toList (by decide),
      hother "NETPARENT_SESSION_MAX_AGE".toList (by decide),
      hother "NETPARENT_COOKIE_SECURE".toList (by decide),
      hother "NETPARENT_MQTT_BROKER".toList (by decide)]
    rfl
  have hmissing : missingVars (settings (withUsername lookup username)) =
      missingVars (settings lookup) := by rw [hsettings]; rfl
  unfold load at h ⊢
  dsimp only at h ⊢
  rw [hmissing]
  split at h
  · cases h
  · next hnone =>
    rw [if_neg hnone]
    split at h
    · cases h
    · next hlong =>
      cases h
      rw [hsettings, if_neg hlong]

end Netparent.Web
