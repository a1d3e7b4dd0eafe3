/-
  auth/auth.go and the login handlers of server.go: the session cookie.

  A cookie is `base64(username|expiry).signature`. `Crypto` stands for the HMAC and for bcrypt. A
  cookie that passes carries a signed payload, and when only payloads issued earlier are signed, an
  accepted login wrote its expiry (`session_sound`). A username with the separator of the payload
  is cut at it, and an empty one reads as no login at all; every other one gets through until its
  expiry (`session_passes_iff`).

  A time is in nanoseconds.
-/
import Netparent.Web.Config
import Netparent.Lib.Base64

namespace Netparent.Web

/-- HMAC-SHA256 under a secret, and bcrypt's comparison of a hash with a password. -/
structure Crypto where
  hmac : Str → Str → Str
  compareHash : Str → Str → Bool

structure Auth where
  username : Str
  passwordHash : Str
  secret : Str
  maxAge : Int
  cookieSecure : Bool
  /-- A Go string is a sequence of bytes. -/
  username_bytes : ∀ c ∈ username, c.toNat < 256

/-- The attributes `http.SetCookie` is given; `SameSite` is always strict. -/
structure SetCookie where
  name : Str
  value : Str
  path : Str
  httpOnly : Bool
  secure : Bool
  maxAge : Int
  deriving DecidableEq

structure HttpRequest where
  path : Str
  /-- The value of the `np_session` cookie, if there is one. -/
  cookie : Option Str

def cookieName : Str := "np_session".toList

/-- `t.Unix()`, an `int64`. -/
def unix (t : Int) : Int := Int.bmod (t / 10 ^ 9) (2 ^ 64)

/-- `strings.SplitN(s, sep, 2)` when it gives two parts. -/
def splitAt2 (sep : Char) : Str → Option (Str × Str)
  | [] => none
  | c :: cs => if c = sep then some ([], cs) else (splitAt2 sep cs).map fun p => (c :: p.1, p.2)

inductive ParseError where
  | malformedCookie
  | encoding
  | badSignature
  | malformedPayload
  | expiry
  | expired

/-- What the middleware does with a request. -/
inductive Gate where
  | next
  | unauthorized
  | redirect (target : Str)
  deriving DecidableEq

/-- What becomes of a login form. -/
inductive LoginResult where
  | badForm
  | invalid
  | loggedIn (cookie : SetCookie)

namespace Auth

variable (c : Crypto) (a : Auth)

def verifyPassword (username password : Str) : Bool :=
  if username ≠ a.username then false else c.compareHash a.passwordHash password

def sign (payload : Str) : Str := Base64.encode (c.hmac a.secret payload)

/-- The expiry written at `now`. -/
def expiry (now : Int) : Int := unix (now + a.maxAge)

def payload (now : Int) : Str := a.username ++ '|' :: Decimal.text (a.expiry now)

def issueCookie (now : Int) : SetCookie where
  name := cookieName
  value := Base64.encode (a.payload now) ++ '.' :: a.sign c (a.payload now)
  path := ['/']
  httpOnly := true
  secure := a.cookieSecure
  maxAge := a.maxAge.tdiv (10 ^ 9)

def clearCookie : SetCookie where
  name := cookieName
  value := []
  path := ['/']
  httpOnly := true
  secure := a.cookieSecure
  maxAge := -1

def parse (now : Int) (value : Str) : Except ParseError Str :=
  match splitAt2 '.' value with
  | none => .error .malformedCookie
  | some (encoded, signature) => match Base64.decode encoded with
    | none => .error .encoding
    | some payload =>
        if a.sign c payload ≠ signature then .error .badSignature
        else match splitAt2 '|' payload with
          | none => .error .malformedPayload
          | some (user, text) => match parseInt text with
            | none => .error .expiry
            | some expiry => if unix now ≥ expiry then .error .expired else .ok user

/-- Empty when there is no valid cookie. -/
def currentUser (now : Int) (r : HttpRequest) : Str :=
  match r.cookie with
  | none => []
  | some value =>
      if value = [] then []
      else match a.parse c now value with
        | .error _ => []
        | .ok user => user

def requireLogin (now : Int) (r : HttpRequest) : Gate :=
  if a.currentUser c now r = [] then
    if "/api/".toList <+: r.path then .unauthorized else .redirect "/login".toList
  else .next

/-- `form` is `none` when it does not parse. -/
def handleLoginSubmit (now : Int) (form : Option (Str × Str)) : LoginResult :=
  match form with
  | none => .badForm
  | some (user, pass) =>
      if !a.verifyPassword c user pass then .invalid else .loggedIn (a.issueCookie c now)

def handleLogout : SetCookie := a.clearCookie

end Auth

/-! ## Splitting -/

theorem splitAt2_append {sep : Char} {u : Str} (h : sep ∉ u) (t : Str) :
    splitAt2 sep (u ++ sep :: t) = some (u, t) := by
  induction u with
  | nil => exact if_pos rfl
  | cons c cs ih =>
    have hc : c ≠ sep := fun he => h (he ▸ List.mem_cons_self)
    rw [List.cons_append, splitAt2, if_neg hc, ih fun hm => h (List.mem_cons_of_mem _ hm)]
    rfl

/-- The other way to cut at the separator. -/
theorem splitAt2_of_mem {sep : Char} {u t : Str} (h : sep ∈ u) :
    ∃ u₁ u₂, u = u₁ ++ sep :: u₂ ∧ splitAt2 sep (u ++ sep :: t) = some (u₁, u₂ ++ sep :: t) := by
  induction u with
  | nil => cases h
  | cons c cs ih =>
    by_cases hc : c = sep
    · exact ⟨[], cs, by rw [hc]; rfl, if_pos hc⟩
    · obtain ⟨u₁, u₂, rfl, hsplit⟩ := ih ((List.mem_cons.mp h).resolve_left fun he => hc he.symm)
      refine ⟨c :: u₁, u₂, rfl, ?_⟩
      rw [List.cons_append, splitAt2, if_neg hc, hsplit]
      rfl

/-! ## Payloads -/

theorem unix_range (t : Int) : -2 ^ 63 ≤ unix t ∧ unix t < 2 ^ 63 := by
  unfold unix
  constructor
  · have := Int.le_bmod (x := t / 10 ^ 9) (m := 2 ^ 64) (by decide)
    omega
  · have := Int.bmod_lt (x := t / 10 ^ 9) (m := 2 ^ 64) (by decide)
    omega

theorem parseInt_text {n : Int} (h : -2 ^ 63 ≤ n ∧ n < 2 ^ 63) : parseInt (Decimal.text n) = some n := by
  rw [parseInt, Decimal.parse_text]
  exact Option.filter_eq_some_iff.mpr ⟨rfl, by simpa using h⟩

/-- A separator is no numeral. -/
theorem parseInt_separator {s : Str} (h : '|' ∈ s) : parseInt s = none := by
  cases hp : Decimal.parse s with
  | none => rw [parseInt, hp]; rfl
  | some n =>
    rcases Decimal.mem_of_parse hp h with hd | hd | hd <;> exact absurd hd (by decide)

namespace Auth

variable {c : Crypto} {a : Auth}

/-- Without the separator in the username the payload splits into its two parts. -/
theorem payload_split (h : '|' ∉ a.username) (now : Int) :
    splitAt2 '|' (a.payload now) = some (a.username, Decimal.text (a.expiry now)) :=
  splitAt2_append h _

/-- With it, what is left for the expiry is no number. -/
theorem payload_split_separator (h : '|' ∈ a.username) (now : Int) :
    ∃ user text, splitAt2 '|' (a.payload now) = some (user, text) ∧ parseInt text = none := by
  obtain ⟨u₁, u₂, _, hsplit⟩ := splitAt2_of_mem (t := Decimal.text (a.expiry now)) h
  exact ⟨u₁, _, hsplit, parseInt_separator (List.mem_append_right _ List.mem_cons_self)⟩

/-- A payload gives back nothing but what was put in. -/
theorem payload_inv {now n : Int} {user text : Str} (hs : splitAt2 '|' (a.payload now) = some (user, text))
    (hn : parseInt text = some n) : user = a.username ∧ n = a.expiry now := by
  by_cases h : '|' ∈ a.username
  · obtain ⟨user', text', hs', hn'⟩ := payload_split_separator h now
    rw [hs, Option.some.injEq, Prod.mk.injEq] at hs'
    rw [← hs'.2, hn] at hn'
    cases hn'
  · rw [payload_split h, Option.some.injEq, Prod.mk.injEq] at hs
    obtain ⟨rfl, rfl⟩ := hs
    have hback : parseInt (Decimal.text (a.expiry now)) = some (a.expiry now) :=
      parseInt_text (unix_range _)
    exact ⟨rfl, Option.some.inj (hn.symm.trans hback)⟩

theorem payload_bytes (now : Int) : ∀ ch ∈ a.payload now, ch.toNat < 256 := by
  have hall : ∀ d ∈ Decimal.digits, d.toNat < 256 := by simp [Decimal.digits]
  intro ch hch
  rcases List.mem_append.mp hch with hch | hch
  · exact a.username_bytes ch hch
  · rcases List.mem_cons.mp hch with rfl | hch
    · decide
    · rcases Decimal.mem_text hch with rfl | hd
      · decide
      · exact hall ch hd

/-- What a cookie that parses holds. -/
theorem parse_eq_ok {now : Int} {value user : Str} : a.parse c now value = .ok user ↔
    ∃ encoded payload text n, splitAt2 '.' value = some (encoded, a.sign c payload) ∧
      Base64.decode encoded = some payload ∧ splitAt2 '|' payload = some (user, text) ∧
      parseInt text = some n ∧ unix now < n := by
  unfold parse
  constructor
  · intro h
    split at h
    · cases h
    · next encoded signature hvalue =>
      split at h
      · cases h
      · next payload hdecode =>
        split at h
        · cases h
        · next hsign =>
          split at h
          · cases h
          · next user' text hpayload =>
            split at h
            · cases h
            · next n hn =>
              split at h
              · cases h
              · next hlt =>
                cases h
                rw [not_not] at hsign
                exact ⟨encoded, payload, text, n, by rw [hvalue, hsign], hdecode, hpayload, hn,
                  by omega⟩
  · rintro ⟨encoded, payload, text, n, hvalue, hdecode, hpayload, hn, hlt⟩
    rw [hvalue]
    dsimp only
    rw [hdecode]
    dsimp only
    rw [if_neg (not_not.mpr rfl), hpayload]
    dsimp only
    rw [hn]
    exact if_neg (by omega)

theorem currentUser_of_cookie {now : Int} {r : HttpRequest} {value : Str} (hr : r.cookie = some value)
    (hne : value ≠ []) : a.currentUser c now r =
      match a.parse c now value with
      | .error _ => []
      | .ok user => user := by
  rw [currentUser, hr]
  exact if_neg hne

/-- A user that is not empty is the one a cookie parses to. -/
theorem parse_of_currentUser {now : Int} {r : HttpRequest} (h : a.currentUser c now r ≠ []) :
    ∃ value, r.cookie = some value ∧ a.parse c now value = .ok (a.currentUser c now r) := by
  cases hr : r.cookie with
  | none =>
    rw [currentUser, hr] at h
    exact absurd rfl h
  | some value =>
    have hne : value ≠ [] := by
      intro he
      rw [currentUser, hr] at h
      exact h (if_pos he)
    have hcur : a.currentUser c now r = _ := currentUser_of_cookie hr hne
    refine ⟨value, rfl, ?_⟩
    rw [hcur] at h ⊢
    split at h
    · exact absurd rfl h
    · next user huser => rw [huser]

theorem requireLogin_eq_next {now : Int} {r : HttpRequest} :
    a.requireLogin c now r = .next ↔ a.currentUser c now r ≠ [] := by
  unfold requireLogin
  by_cases h : a.currentUser c now r = []
  · rw [if_pos h]
    refine iff_of_false (fun he => ?_) (not_not.mpr h)
    split at he <;> cases he
  · rw [if_neg h]
    exact iff_of_true rfl h

/-! ## Soundness -/

/-- A request in a run: a login form, a logout, or anything behind the login. -/
inductive Visit where
  | login (form : Option (Str × Str))
  | logout
  | page (r : HttpRequest)

/-- The payload a visit at time `t` has signed. -/
def signedBy (c : Crypto) (a : Auth) : Int × Visit → Option Str
  | (t, .login form) => match a.handleLoginSubmit c t form with
    | .loggedIn _ => some (a.payload t)
    | _ => none
  | _ => none

/-- What is assumed of the HMAC: the part of a cookie behind the first dot is the signature of
    payloads signed before only. -/
def Unforged (c : Crypto) (a : Auth) (signed : List Str) (r : HttpRequest) : Prop :=
  ∀ value encoded signature, r.cookie = some value →
    splitAt2 '.' value = some (encoded, signature) →
    ∀ payload, signature = a.sign c payload → payload ∈ signed

/-- A run: visits in order of time, with cookies that are not forged. -/
structure IsRun (c : Crypto) (a : Auth) (run : List (Int × Visit)) : Prop where
  ordered : run.Pairwise fun x y => x.1 ≤ y.1
  unforged : ∀ before t r after, run = before ++ (t, .page r) :: after →
    Unforged c a (before.filterMap (signedBy c a)) r

theorem signedBy_eq_some {v : Int × Visit} {p : Str} (h : signedBy c a v = some p) :
    ∃ t user pass, v = (t, .login (some (user, pass))) ∧ a.verifyPassword c user pass = true ∧
      p = a.payload t := by
  obtain ⟨t, v⟩ := v
  cases v with
  | logout => cases h
  | page r => cases h
  | login form =>
    cases form with
    | none => cases h
    | some f =>
      obtain ⟨user, pass⟩ := f
      cases hv : a.verifyPassword c user pass with
      | false =>
        simp only [signedBy, handleLoginSubmit, hv] at h
        cases h
      | true =>
        simp only [signedBy, handleLoginSubmit, hv] at h
        cases h
        exact ⟨t, user, pass, rfl, hv, rfl⟩

/-- **Soundness.** A request that passes comes after an accepted login whose expiry it precedes, and
    the user it is taken for is the configured one. -/
theorem session_sound {run : List (Int × Visit)} (hrun : IsRun c a run)
    (before after : List (Int × Visit)) (t : Int) (r : HttpRequest)
    (hat : run = before ++ (t, .page r) :: after) (hpass : a.requireLogin c t r = .next) :
    a.currentUser c t r = a.username ∧
    ∃ t₀ user pass, (t₀, Visit.login (some (user, pass))) ∈ before ∧
      a.verifyPassword c user pass = true ∧ t₀ ≤ t ∧ unix t < a.expiry t₀ := by
  obtain ⟨value, hvalue, hparse⟩ := parse_of_currentUser (requireLogin_eq_next.mp hpass)
  obtain ⟨encoded, payload, text, n, hcut, _, hpayload, hn, hlt⟩ := parse_eq_ok.mp hparse
  have hsigned := hrun.unforged before t r after hat value encoded _ hvalue hcut payload rfl
  obtain ⟨v, hv, hby⟩ := List.mem_filterMap.mp hsigned
  obtain ⟨t₀, user, pass, rfl, hverify, rfl⟩ := signedBy_eq_some hby
  obtain ⟨huser, rfl⟩ := payload_inv hpayload hn
  have horder : t₀ ≤ t := by
    have hpair := hrun.ordered
    rw [hat, List.pairwise_append] at hpair
    exact hpair.2.2 _ hv _ List.mem_cons_self
  exact ⟨huser, t₀, user, pass, hv, hverify, horder, hlt⟩

/-! ## Round trip -/

/-- A request at `t` with the cookie issued at `t₀` gets through, as the configured user. -/
def Passes (c : Crypto) (a : Auth) (t₀ t : Int) (path : Str) : Prop :=
  a.currentUser c t { path := path, cookie := some (a.issueCookie c t₀).value } = a.username ∧
    a.requireLogin c t { path := path, cookie := some (a.issueCookie c t₀).value } = .next

/-- The issued value splits and decodes to the payload. -/
theorem issued_value (t₀ : Int) :
    splitAt2 '.' (a.issueCookie c t₀).value =
        some (Base64.encode (a.payload t₀), a.sign c (a.payload t₀)) ∧
      Base64.decode (Base64.encode (a.payload t₀)) = some (a.payload t₀) := by
  have hdot : '.' ∉ Base64.encode (a.payload t₀) := fun hm =>
    (Base64.alphabet_plain (Base64.mem_encode (payload_bytes t₀) hm)).2 rfl
  exact ⟨splitAt2_append hdot _, Base64.decode_encode (payload_bytes t₀)⟩

/-- **Round trip.** Until its expiry an issued cookie gets its user through exactly when the username
    is not empty and has no separator. -/
theorem session_passes_iff (t₀ t : Int) (path : Str) (ht : unix t < a.expiry t₀) :
    Passes c a t₀ t path ↔ a.username ≠ [] ∧ '|' ∉ a.username := by
  obtain ⟨hcut, hdecode⟩ := issued_value (a := a) (c := c) t₀
  unfold Passes
  constructor
  · rintro ⟨huser, hpass⟩
    have hne := requireLogin_eq_next.mp hpass
    refine ⟨by rwa [huser] at hne, fun hsep => ?_⟩
    obtain ⟨value, hvalue, hparse⟩ := parse_of_currentUser hne
    obtain ⟨encoded, payload, text, n, hcut', hdecode', hpayload, hn, _⟩ := parse_eq_ok.mp hparse
    cases hvalue
    rw [hcut, Option.some.injEq, Prod.mk.injEq] at hcut'
    rw [← hcut'.1, hdecode, Option.some.injEq] at hdecode'
    obtain ⟨user', text', hsplit, hnone⟩ := payload_split_separator hsep t₀
    rw [← hdecode', hsplit, Option.some.injEq, Prod.mk.injEq] at hpayload
    rw [← hpayload.2, hnone] at hn
    cases hn
  · rintro ⟨hne, hsep⟩
    have hparse : a.parse c t (a.issueCookie c t₀).value = .ok a.username :=
      parse_eq_ok.mpr ⟨_, _, _, _, hcut, hdecode, payload_split hsep t₀,
        parseInt_text (unix_range _), ht⟩
    have hvalue : (a.issueCookie c t₀).value ≠ [] := by
      intro he
      rw [he] at hcut
      cases hcut
    have huser : a.currentUser c t { path := path, cookie := some (a.issueCookie c t₀).value } = _ :=
      currentUser_of_cookie rfl hvalue
    rw [hparse] at huser
    exact ⟨huser, requireLogin_eq_next.mpr (by rwa [huser])⟩

end Auth

/-! ## Two configurations -/

/-- A bcrypt hash of the password `pw`. -/
def plainHash : Str := "$2a$10$abcdefghijklmnopqrstuuj7m4XYqbm74SxoBcXyw8to0CQ061DVG".toList

/-- The required variables, and no others. -/
def plainEnv (key : Str) : Option Str :=
  if key = "NETPARENT_ADMIN_PASSWORD_HASH".toList then some plainHash
  else if key = "NETPARENT_SESSION_SECRET".toList then some "0123456789abcdef".toList
  else if key = "NETPARENT_MQTT_BROKER".toList then some "tls://mqtt:8883".toList
  else none

/-- `auth.New` of the settings; the product of the durations wraps. -/
def newAuth (s : Settings) (h : ∀ c ∈ s.adminUsername, c.toNat < 256) : Auth where
  username := s.adminUsername
  passwordHash := s.adminPasswordHash
  secret := s.sessionSecret
  maxAge := (s.sessionMaxAge * 10 ^ 9).bmod (2 ^ 64)
  cookieSecure := s.cookieSecure
  username_bytes := h

theorem bytes_of_all {s : Str} (h : (s.all fun c => decide (c.toNat < 256)) = true) :
    ∀ c ∈ s, c.toNat < 256 := fun c hc => of_decide_eq_true (List.all_eq_true.mp h c hc)

def plainAuth : Auth := newAuth (settings plainEnv) (bytes_of_all (by decide +kernel))

/-- The settings with the username `a|b`. -/
def barSettings : Settings := { settings plainEnv with adminUsername := "a|b".toList }

def barAuth : Auth := newAuth barSettings (bytes_of_all (by decide +kernel))

theorem load_plainEnv : load plainEnv = .ok (settings plainEnv) := by
  have hall : missingVars (settings plainEnv) = [] := by decide +kernel
  have hlong : ¬ (settings plainEnv).sessionSecret.length < 16 := by decide +kernel
  unfold load
  dsimp only
  rw [if_neg (not_not.mpr hall), if_neg hlong]

/-- The HMAC of the payload `admin|28800` under the secret above; `pw` is right for the hash above. -/
def plainCrypto : Crypto where
  hmac := fun _ payload => if payload = "admin|28800".toList then
      [126, 242, 221, 220, 7, 71, 217, 102, 87, 37, 24, 252, 194, 91, 230, 188, 105, 42, 126, 12, 174,
        45, 237, 92, 93, 11, 56, 199, 214, 27, 198, 209].map Char.ofNat
    else []
  compareHash := fun hash password => hash = plainHash ∧ password = "pw".toList

/-- An hour after a login at 0, with eight hours of validity. -/
theorem session_passes_plain :
    plainAuth.Passes plainCrypto 0 (3600 * 10 ^ 9) "/".toList :=
  (Auth.session_passes_iff 0 (3600 * 10 ^ 9) "/".toList (by decide +kernel)).mpr (by decide +kernel)

/-- `Load` accepts the username `a|b`, and a cookie issued for it does not pass at the same second. -/
theorem bar_username_locked_out :
    load (withUsername plainEnv "a|b".toList) = .ok barSettings ∧
    unix 0 < barAuth.expiry 0 ∧ ¬ barAuth.Passes plainCrypto 0 0 "/".toList := by
  refine ⟨load_any_username load_plainEnv _, by decide +kernel, fun hpass => ?_⟩
  exact absurd hpass.2 (by decide +kernel)

/-- The page request of the run below. -/
def plainPage : HttpRequest where
  path := "/".toList
  cookie := some (plainAuth.issueCookie plainCrypto 0).value

/-- A login, and a page an hour later. -/
def plainRun : List (Int × Auth.Visit) :=
  [(0, .login (some ("admin".toList, "pw".toList))), (3600 * 10 ^ 9, .page plainPage)]

theorem plainRun_isRun : Auth.IsRun plainCrypto plainAuth plainRun where
  ordered := by simp [plainRun]
  unforged before t r after hat := by
    have hpayload : plainAuth.payload 0 = "admin|28800".toList := by decide +kernel
    have hsigned : [((0 : Int), Auth.Visit.login (some ("admin".toList, "pw".toList)))].filterMap
        (Auth.signedBy plainCrypto plainAuth) = [plainAuth.payload 0] := rfl
    rcases before with _ | ⟨v, _ | ⟨v', before⟩⟩
    · cases hat
    · cases hat
      intro value encoded signature hvalue hcut p hp
      cases hvalue
      rw [(Auth.issued_value 0).1, Option.some.injEq, Prod.mk.injEq] at hcut
      rw [hsigned, List.mem_singleton, hpayload]
      by_contra hne
      have hnone : plainAuth.sign plainCrypto p = [] :=
        congrArg Base64.encode (if_neg hne : plainCrypto.hmac plainAuth.secret p = [])
      rw [← hcut.2, hnone] at hp
      exact absurd hp (by decide +kernel)
    · have hlen := congrArg List.length hat
      simp only [plainRun, List.length_cons, List.length_nil, List.cons_append, List.length_append] at hlen
      omega

theorem session_sound_plain : plainAuth.currentUser plainCrypto (3600 * 10 ^ 9) plainPage =
    plainAuth.username :=
  (Auth.session_sound plainRun_isRun [_] [] _ plainPage rfl (by decide +kernel)).1

end Netparent.Web
