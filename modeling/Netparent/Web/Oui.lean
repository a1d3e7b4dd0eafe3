/-
  oui.go: the vendor of a MAC address, looked up once for each OUI.

  `Lookup` and the two critical sections of `fetch` are the steps of a `Resolver`, whose state has
  the running fetches beside the cache and the in-flight set; whatever happens between two sections
  of a goroutine is left to the order of the events. `Inv` ties the three together and
  `single_flight` reads off what it means for a run. `ouiKey_iff` says when `ouiKey` succeeds: it
  looks no further than the sixth digit, so what follows is never checked
  (`rejectsMalformed_iff`).
-/
import Netparent.Mac
import Netparent.Web.Store

namespace Netparent.Web

/-! ## ouiKey -/

def isOuiSep (c : Char) : Bool := c == ':' || c == '-' || c == '.'

/-- The digit written for a character; `none` for one that is no digit. -/
def ouiDigit (c : Char) : Option Char :=
  if ('0' ≤ c && c ≤ '9') || ('a' ≤ c && c ≤ 'f') then some c
  else if 'A' ≤ c && c ≤ 'F' then some (Char.ofNat (c.toNat + 32))
  else none

/-- The loop of `ouiKey`; `b` is what the builder holds. -/
def ouiKeyLoop : (b : Str) → Str → Option Str
  | _, [] => none
  | b, c :: cs =>
      if isOuiSep c then ouiKeyLoop b cs
      else match ouiDigit c with
        | none => none
        | some d => if (b ++ [d]).length = 6 then some (b ++ [d]) else ouiKeyLoop (b ++ [d]) cs

def ouiKey (mac : Str) : Option Str := ouiKeyLoop [] mac

theorem ouiDigit_ascii : ∀ n < 128, ouiDigit (Char.ofNat n) =
    if isxdigit (Char.ofNat n) then some (tolower (Char.ofNat n)) else none := by
  decide +kernel

theorem ouiDigit_eq (c : Char) : ouiDigit c = if isxdigit c then some (tolower c) else none := by
  by_cases hc : c.toNat < 128
  · have := ouiDigit_ascii c.toNat hc
    rwa [Char.ofNat_toNat] at this
  · have hx : isxdigit c = false := by
      by_contra h
      have hsmall : ∀ d ∈ hexDigits, d.toNat < 128 := by simp [hexDigits, lowerHexDigits]
      exact hc (hsmall c (isxdigit_iff_mem.mp (by simpa using h)))
    have hle : ∀ d : Char, d.toNat < 128 → ¬ c ≤ d := fun d hd hcd => hc (lt_of_le_of_lt hcd hd)
    simp [ouiDigit, hx, hle '9' (by decide), hle 'f' (by decide), hle 'F' (by decide)]

theorem isOuiSep_isxdigit {c : Char} (h : isOuiSep c = true) : isxdigit c = false := by
  have hc : (c = ':' ∨ c = '-') ∨ c = '.' := by simpa [isOuiSep] using h
  rcases hc with (rfl | rfl) | rfl <;> decide

/-- The characters the scan goes past. -/
def isOuiChar (c : Char) : Bool := isxdigit c || isOuiSep c

theorem ouiKeyLoop_sep {b : Str} {c : Char} {cs : Str} (h : isOuiSep c = true) :
    ouiKeyLoop b (c :: cs) = ouiKeyLoop b cs := by
  rw [ouiKeyLoop, if_pos h]

theorem ouiKeyLoop_digit {b : Str} {c : Char} {cs : Str} (h : isxdigit c = true) :
    ouiKeyLoop b (c :: cs) = if (b ++ [tolower c]).length = 6 then some (b ++ [tolower c])
      else ouiKeyLoop (b ++ [tolower c]) cs := by
  have hsep : ¬ isOuiSep c = true := fun hs => by
    rw [isOuiSep_isxdigit hs] at h
    cases h
  rw [ouiKeyLoop, if_neg hsep, ouiDigit_eq, if_pos h]

theorem ouiKeyLoop_bad {b : Str} {c : Char} {cs : Str} (h : isOuiChar c = false) :
    ouiKeyLoop b (c :: cs) = none := by
  obtain ⟨hx, hs⟩ := Bool.or_eq_false_iff.mp h
  rw [ouiKeyLoop, if_neg (by rw [hs]; exact Bool.false_ne_true), ouiDigit_eq,
    if_neg (by rw [hx]; exact Bool.false_ne_true)]

/-- The hex digits of a string, in lower case. -/
def hexOf (s : Str) : Str := (s.filter isxdigit).map tolower

theorem hexOf_sep {c : Char} (h : isOuiSep c = true) (s : Str) : hexOf (c :: s) = hexOf s := by
  rw [hexOf, List.filter_cons_of_neg (by rw [isOuiSep_isxdigit h]; exact Bool.false_ne_true), hexOf]

theorem hexOf_digit {c : Char} (h : isxdigit c = true) (s : Str) :
    hexOf (c :: s) = tolower c :: hexOf s := by
  rw [hexOf, List.filter_cons_of_pos h, List.map_cons, hexOf]

/-- `s` begins with characters the scan goes past, whose digits make the builder's `b` the six of
    `k`. -/
def CompletesKey (b s k : Str) : Prop :=
  ∃ pre post, s = pre ++ post ∧ (∀ c ∈ pre, isOuiChar c = true) ∧
    (b ++ hexOf pre).length = 6 ∧ k = b ++ hexOf pre

theorem completesKey_cons {b cs k : Str} {c : Char} (hb : b.length < 6) :
    CompletesKey b (c :: cs) k ↔ isOuiChar c = true ∧
      ∃ pre post, cs = pre ++ post ∧ (∀ d ∈ pre, isOuiChar d = true) ∧
        (b ++ hexOf (c :: pre)).length = 6 ∧ k = b ++ hexOf (c :: pre) := by
  constructor
  · rintro ⟨pre, post, hs, hpre, hlen, hk⟩
    cases pre with
    | nil =>
      rw [hexOf, List.filter_nil, List.map_nil, List.append_nil] at hlen
      omega
    | cons d pre =>
      obtain ⟨rfl, hcs⟩ := List.cons.inj hs
      exact ⟨hpre c List.mem_cons_self, pre, post, hcs,
        fun e he => hpre e (List.mem_cons_of_mem _ he), hlen, hk⟩
  · rintro ⟨hc, pre, post, rfl, hpre, hlen, hk⟩
    exact ⟨c :: pre, post, rfl, List.forall_mem_cons.mpr ⟨hc, hpre⟩, hlen, hk⟩

/-- The scan succeeds as soon as the digits it has read are six, and looks no further. -/
theorem ouiKeyLoop_iff {b s k : Str} (hb : b.length < 6) :
    ouiKeyLoop b s = some k ↔ CompletesKey b s k := by
  induction s generalizing b with
  | nil =>
    constructor
    · intro h
      cases h
    · rintro ⟨pre, post, hs, -, hlen, -⟩
      obtain ⟨rfl, rfl⟩ := List.append_eq_nil_iff.mp hs.symm
      rw [hexOf, List.filter_nil, List.map_nil, List.append_nil] at hlen
      omega
  | cons c cs ih =>
    rw [completesKey_cons hb]
    by_cases hsep : isOuiSep c = true
    · simp only [ouiKeyLoop_sep hsep, ih hb, hexOf_sep hsep, isOuiChar, hsep, Bool.or_true,
        true_and]
      rfl
    by_cases hx : isxdigit c = true
    · have hb' : (b ++ [tolower c]).length = b.length + 1 := by simp
      have happ : ∀ pre, b ++ tolower c :: hexOf pre = b ++ [tolower c] ++ hexOf pre := by simp
      simp only [ouiKeyLoop_digit hx, hexOf_digit hx, isOuiChar, hx, Bool.true_or, true_and, happ]
      by_cases hfull : (b ++ [tolower c]).length = 6
      · rw [if_pos hfull, Option.some.injEq]
        constructor
        · rintro rfl
          exact ⟨[], cs, rfl, by simp, by simpa [hexOf] using hfull, by simp [hexOf]⟩
        · rintro ⟨pre, post, -, -, hlen, rfl⟩
          have hnone : hexOf pre = [] := by
            rw [List.length_append, hfull] at hlen
            exact List.eq_nil_of_length_eq_zero (by omega)
          rw [hnone, List.append_nil]
      · rw [if_neg hfull, ih (by omega)]
        rfl
    · have hbad : isOuiChar c = false := by
        rw [isOuiChar, Bool.eq_false_iff.mpr hx, Bool.eq_false_iff.mpr hsep]
        rfl
      rw [ouiKeyLoop_bad hbad, hbad]
      simp

theorem ouiKey_iff {mac k : Str} : ouiKey mac = some k ↔ ∃ pre post, mac = pre ++ post ∧
    (∀ c ∈ pre, isOuiChar c = true) ∧ (hexOf pre).length = 6 ∧ k = hexOf pre :=
  ouiKeyLoop_iff (by decide)

example : ouiKey "AA-bb.0c:11".toList = some "aabb0c".toList := by decide

/-! ## The API -/

def apiURL : Str := "https://api.maclookup.app/v2/macs/".toList

/-- The cache entry of an OUI confirmed to be unknown. -/
def unknownMarker : Str := "\x00unknown".toList

structure ApiBody where
  success : Bool := false
  found : Bool := false
  company : Str := []
  isRand : Bool := false

/-- What comes of a request: nothing, or a response with its status code and its body, if that
    decodes. -/
inductive Reply where
  | failed
  | response (status : Nat) (body : Option ApiBody)

/-- `callAPI`: the vendor, empty for a confirmed unknown; `none` for an error. -/
def callAPI : Reply → Option Str
  | .failed => none
  | .response status body =>
      if status = 404 then some []
      else if status ≠ 200 then none
      else match body with
        | none => none
        | some body =>
            if body.isRand then some "(randomized MAC)".toList
            else if !body.success || !body.found then some []
            else some body.company

/-! ## The resolver -/

/-- How far a `fetch` goroutine has come: its request is still to be answered, or the result is
    in and the deferred removal is all that is left. -/
inductive Phase where
  | calling
  | done (result : Option Str)
  deriving DecidableEq

/-- What the cache has for a key with a goroutine at this point. -/
def Phase.cached : Phase → Option Str
  | .calling => none
  | .done none => none
  | .done (some vendor) => some (if vendor = [] then unknownMarker else vendor)

structure Fetch where
  key : Str
  mac : Str
  phase : Phase := .calling
  deriving DecidableEq

/-- The URL it requests. -/
def Fetch.url (f : Fetch) : Str := apiURL ++ f.mac

structure Resolver where
  cache : GoMap Str := ∅
  inflight : GoMap Unit := ∅
  fetches : List Fetch := []

namespace Resolver

/-- The locked section of `Lookup` for a key: the cache is read, and a miss starts a fetch unless
    one is in flight. -/
def schedule (r : Resolver) (key mac : Str) : Resolver :=
  match r.cache.lookup key with
  | some _ => r
  | none =>
      if key ∈ r.inflight then r
      else { r with
        inflight := r.inflight.insert key ()
        fetches := r.fetches ++ [{ key := key, mac := mac }] }

/-- `Lookup`: the vendor, empty if there is none, and the resolver afterwards. -/
def lookup (r : Resolver) (mac : Str) : Str × Resolver :=
  match ouiKey mac with
  | none => ([], r)
  | some key =>
      let v := (r.cache.lookup key).getD []
      (if v = unknownMarker then [] else v, r.schedule key mac)

/-- The locked section of `fetch` that stores the result of goroutine `i`. -/
def store (r : Resolver) (i : Nat) (reply : Reply) : Option Resolver :=
  match r.fetches[i]? with
  | some ⟨key, mac, .calling⟩ => some { r with
      cache := match callAPI reply with
        | none => r.cache
        | some vendor => r.cache.insert key (if vendor = [] then unknownMarker else vendor)
      fetches := r.fetches.set i ⟨key, mac, .done (callAPI reply)⟩ }
  | _ => none

/-- Its deferred section: the key is no longer in flight, and the goroutine ends. -/
def finish (r : Resolver) (i : Nat) : Option Resolver :=
  match r.fetches[i]? with
  | some ⟨key, _, .done _⟩ => some { r with
      inflight := r.inflight.erase key
      fetches := r.fetches.eraseIdx i }
  | _ => none

/-- A locked section. -/
inductive Event where
  | lookup (mac : Str)
  | store (i : Nat) (reply : Reply)
  | finish (i : Nat)

/-- `none` when there is no such goroutine at that point. -/
def step (r : Resolver) : Event → Option Resolver
  | .lookup mac => some (r.lookup mac).2
  | .store i reply => r.store i reply
  | .finish i => r.finish i

def run : List Event → Resolver → Option Resolver
  | [], r => some r
  | e :: es, r => match r.step e with
      | none => none
      | some r' => run es r'

/-! ## What ties the cache, the in-flight set and the goroutines together -/

structure Inv (r : Resolver) : Prop where
  /-- One goroutine for each key. -/
  distinct : (r.fetches.map Fetch.key).Nodup
  /-- The in-flight keys are theirs. -/
  inflight : ∀ k, k ∈ r.inflight ↔ k ∈ r.fetches.map Fetch.key
  /-- The cache has what the goroutine of a key has stored. -/
  cached : ∀ f ∈ r.fetches, r.cache.lookup f.key = f.phase.cached
  own : ∀ f ∈ r.fetches, ouiKey f.mac = some f.key

theorem inv_new : Inv {} where
  distinct := List.nodup_nil
  inflight := fun k => by
    constructor
    · intro h
      exact absurd h (Finmap.notMem_empty)
    · intro h
      cases h
  cached := fun f h => by cases h
  own := fun f h => by cases h

/-- What `Lookup` can do: nothing for a key that is cached or in flight, else a fetch. -/
theorem schedule_cases (r : Resolver) (key mac : Str) :
    (¬ (r.cache.lookup key = none ∧ key ∉ r.inflight) ∧ r.schedule key mac = r) ∨
      ((r.cache.lookup key = none ∧ key ∉ r.inflight) ∧ r.schedule key mac =
        { r with
          inflight := r.inflight.insert key ()
          fetches := r.fetches ++ [{ key := key, mac := mac }] }) := by
  unfold schedule
  cases hc : r.cache.lookup key with
  | some v => exact Or.inl ⟨fun ho => Option.some_ne_none v ho.1, rfl⟩
  | none =>
    by_cases hk : key ∈ r.inflight
    · exact Or.inl ⟨fun ho => ho.2 hk, if_pos hk⟩
    · exact Or.inr ⟨⟨rfl, hk⟩, if_neg hk⟩

theorem lookup_eq {r : Resolver} {mac key : Str} (h : ouiKey mac = some key) : r.lookup mac =
    (if (r.cache.lookup key).getD [] = unknownMarker then [] else (r.cache.lookup key).getD [],
      r.schedule key mac) := by
  rw [lookup, h]

theorem lookup_malformed {r : Resolver} {mac : Str} (h : ouiKey mac = none) :
    r.lookup mac = ([], r) := by
  rw [lookup, h]

/-- What storing a result can do: the goroutine is done, and a vendor, but no failure, is cached
    under its key. -/
theorem store_cases {r r' : Resolver} {i : Nat} {reply : Reply} (h : r.store i reply = some r') :
    ∃ key mac, r.fetches[i]? = some ⟨key, mac, .calling⟩ ∧
      r'.fetches = r.fetches.set i ⟨key, mac, .done (callAPI reply)⟩ ∧ r'.inflight = r.inflight ∧
      r'.cache.lookup key = (Phase.done (callAPI reply)).cached.or (r.cache.lookup key) ∧
      ∀ k, k ≠ key → r'.cache.lookup k = r.cache.lookup k := by
  unfold store at h
  split at h
  · next key mac hf =>
    obtain rfl := Option.some.inj h
    refine ⟨key, mac, hf, rfl, rfl, ?_, fun k hk => ?_⟩
    · cases callAPI reply with
      | none => rfl
      | some vendor => exact Finmap.lookup_insert _
    · cases callAPI reply with
      | none => rfl
      | some vendor => exact Finmap.lookup_insert_of_ne _ hk
  · cases h

theorem finish_cases {r r' : Resolver} {i : Nat} (h : r.finish i = some r') :
    ∃ key mac result, r.fetches[i]? = some ⟨key, mac, .done result⟩ ∧ r' = { r with
      inflight := r.inflight.erase key
      fetches := r.fetches.eraseIdx i } := by
  unfold finish at h
  split at h
  · next key mac result hf => exact ⟨key, mac, result, hf, (Option.some.inj h).symm⟩
  · cases h

theorem Inv.schedule {r : Resolver} (h : Inv r) {key mac : Str} (hmac : ouiKey mac = some key) :
    Inv (r.schedule key mac) := by
  rcases schedule_cases r key mac with ⟨_, hr⟩ | ⟨⟨hmiss, hfree⟩, hr⟩
  · rw [hr]
    exact h
  · have hnew : key ∉ r.fetches.map Fetch.key := fun hk => hfree ((h.inflight key).mpr hk)
    rw [hr]
    refine ⟨?_, fun k => ?_, fun f hf => ?_, fun f hf => ?_⟩
    · simpa [List.nodup_append] using ⟨h.distinct, by simpa using hnew⟩
    · rw [Finmap.mem_insert, h.inflight k, List.map_append, List.mem_append]
      simp [or_comm]
    · rcases List.mem_append.mp hf with hf | hf
      · exact h.cached f hf
      · obtain rfl := List.mem_singleton.mp hf
        exact hmiss
    · rcases List.mem_append.mp hf with hf | hf
      · exact h.own f hf
      · obtain rfl := List.mem_singleton.mp hf
        exact hmac

theorem Inv.lookup {r : Resolver} (h : Inv r) (mac : Str) : Inv (r.lookup mac).2 := by
  cases hmac : ouiKey mac with
  | none =>
    rw [lookup_malformed hmac]
    exact h
  | some key =>
    rw [lookup_eq hmac]
    exact h.schedule hmac

theorem Inv.store {r r' : Resolver} (h : Inv r) {i : Nat} {reply : Reply}
    (hr : r.store i reply = some r') : Inv r' := by
  obtain ⟨key, mac, hf, hfetches, hinflight, hself, hothers⟩ := store_cases hr
  obtain ⟨hi, hget⟩ := List.getElem?_eq_some_iff.mp hf
  have hold : (⟨key, mac, .calling⟩ : Fetch) ∈ r.fetches := List.mem_of_getElem? hf
  have hkeys : r'.fetches.map Fetch.key = r.fetches.map Fetch.key := by
    rw [hfetches, List.map_set]
    refine List.ext_getElem (by simp) fun j h₁ h₂ => ?_
    rw [List.getElem_set]
    split
    · next hij =>
      subst hij
      rw [List.getElem_map, hget]
    · rfl
  have hdistinct : (r'.fetches.map Fetch.key).Nodup := by
    rw [hkeys]
    exact h.distinct
  have hmem : (⟨key, mac, .done (callAPI reply)⟩ : Fetch) ∈ r'.fetches := by
    rw [hfetches]
    exact List.mem_iff_getElem.mpr ⟨i, by simpa using hi, by simp⟩
  have hcases : ∀ f ∈ r'.fetches, f ∈ r.fetches ∨ f = ⟨key, mac, .done (callAPI reply)⟩ :=
    fun f hf' => List.mem_or_eq_of_mem_set (hfetches ▸ hf')
  refine ⟨hdistinct, fun k => ?_, fun f hf' => ?_, fun f hf' => ?_⟩
  · rw [hinflight, hkeys]
    exact h.inflight k
  · by_cases hk : f.key = key
    · -- the goroutine whose result is stored is the only one of its key
      obtain rfl := List.inj_on_of_nodup_map hdistinct hf' hmem hk
      have hmiss : r.cache.lookup key = none := h.cached _ hold
      rw [hself, hmiss, Option.or_none]
    · rw [hothers f.key hk]
      exact h.cached f ((hcases f hf').resolve_right fun he => hk (he ▸ rfl))
  · rcases hcases f hf' with hf' | rfl
    · exact h.own f hf'
    · have hown := h.own _ hold
      exact hown

theorem Inv.finish {r r' : Resolver} (h : Inv r) {i : Nat} (hr : r.finish i = some r') : Inv r' := by
  obtain ⟨key, mac, result, hf, rfl⟩ := finish_cases hr
  obtain ⟨hi, hget⟩ := List.getElem?_eq_some_iff.mp hf
  have hkeys : (r.fetches.eraseIdx i).map Fetch.key = (r.fetches.map Fetch.key).erase key := by
    have hi' : i < (r.fetches.map Fetch.key).length := by simpa using hi
    have hkey : (r.fetches.map Fetch.key)[i] = key := by rw [List.getElem_map, hget]
    rw [← hkey, h.distinct.erase_getElem i hi', List.eraseIdx_map]
  have hsub : ∀ f ∈ r.fetches.eraseIdx i, f ∈ r.fetches := fun f hf' => List.mem_of_mem_eraseIdx hf'
  refine ⟨hkeys ▸ h.distinct.erase key, fun k => ?_, fun f hf' => h.cached f (hsub f hf'),
    fun f hf' => h.own f (hsub f hf')⟩
  rw [Finmap.mem_erase, h.inflight k, hkeys, h.distinct.mem_erase_iff]

/-- The step lemma. -/
theorem Inv.step {r r' : Resolver} (h : Inv r) {e : Event} (hr : r.step e = some r') : Inv r' := by
  cases e with
  | lookup mac =>
    obtain rfl := Option.some.inj hr
    exact h.lookup mac
  | store i reply => exact h.store hr
  | finish i => exact h.finish hr

theorem run_cons {e : Event} {es : List Event} {r r' : Resolver} (h : run (e :: es) r = some r') :
    ∃ r₁, r.step e = some r₁ ∧ run es r₁ = some r' := by
  rw [run] at h
  split at h
  · cases h
  · next r₁ hr₁ => exact ⟨r₁, hr₁, h⟩

/-- The run lemma. -/
theorem Inv.run {es : List Event} {r r' : Resolver} (h : Inv r) (hr : run es r = some r') :
    Inv r' := by
  induction es generalizing r with
  | nil => exact Option.some.inj hr ▸ h
  | cons e es ih =>
    obtain ⟨r₁, hstep, hrest⟩ := run_cons hr
    exact ih (h.step hstep) hrest

/-! ## What a key goes through -/

/-- A goroutine of a key, before it has stored anything, and one that failed, find no entry. -/
theorem Inv.miss {r : Resolver} (h : Inv r) {f : Fetch} (hf : f ∈ r.fetches)
    (hp : f.phase = .calling ∨ f.phase = .done none) : r.cache.lookup f.key = none := by
  rw [h.cached f hf]
  rcases hp with hp | hp <;> rw [hp] <;> rfl

/-- The step lemma for a cached key: no later result replaces it. -/
theorem step_cached {r r' : Resolver} (h : Inv r) {e : Event} (hr : r.step e = some r') {k v : Str}
    (hk : r.cache.lookup k = some v) : r'.cache.lookup k = some v := by
  cases e with
  | lookup mac =>
    obtain rfl := Option.some.inj hr
    cases hmac : ouiKey mac with
    | none =>
      rw [lookup_malformed hmac]
      exact hk
    | some key =>
      rw [lookup_eq hmac]
      rcases schedule_cases r key mac with ⟨_, hs⟩ | ⟨_, hs⟩ <;> rw [hs] <;> exact hk
  | store i reply =>
    obtain ⟨key, mac, hf, -, -, -, hothers⟩ := store_cases hr
    have hmiss := h.miss (List.mem_of_getElem? hf) (Or.inl rfl)
    have hne : k ≠ key := by
      rintro rfl
      rw [hmiss] at hk
      cases hk
    exact (hothers k hne).trans hk
  | finish i =>
    obtain ⟨key, mac, result, hf, rfl⟩ := finish_cases hr
    exact hk

theorem run_cached {es : List Event} {r r' : Resolver} (h : Inv r) (hr : run es r = some r')
    {k v : Str} (hk : r.cache.lookup k = some v) : r'.cache.lookup k = some v := by
  induction es generalizing r with
  | nil => exact Option.some.inj hr ▸ hk
  | cons e es ih =>
    obtain ⟨r₁, hstep, hrest⟩ := run_cons hr
    exact ih (h.step hstep) hrest (step_cached h hstep hk)

/-- The key has neither an entry nor a fetch. -/
def Open (r : Resolver) (k : Str) : Prop := r.cache.lookup k = none ∧ k ∉ r.inflight

/-- The event is a lookup of the key. -/
def Event.looksUp (k : Str) : Event → Bool
  | .lookup mac => ouiKey mac == some k
  | _ => false

/-- The step lemma for an open key: only a lookup of it changes that. -/
theorem step_open {r r' : Resolver} (h : Inv r) {e : Event} (hr : r.step e = some r') {k : Str}
    (he : e.looksUp k = false) (ho : r.Open k) : r'.Open k := by
  obtain ⟨hmiss, hfree⟩ := ho
  cases e with
  | lookup mac =>
    obtain rfl := Option.some.inj hr
    cases hmac : ouiKey mac with
    | none =>
      rw [lookup_malformed hmac]
      exact ⟨hmiss, hfree⟩
    | some key =>
      have hne : k ≠ key := by
        rintro rfl
        rw [Event.looksUp, hmac, beq_self_eq_true] at he
        cases he
      rw [lookup_eq hmac]
      rcases schedule_cases r key mac with ⟨_, hs⟩ | ⟨_, hs⟩
      · rw [hs]
        exact ⟨hmiss, hfree⟩
      · rw [hs]
        exact ⟨hmiss, fun hk => (Finmap.mem_insert.mp hk).elim hne hfree⟩
  | store i reply =>
    obtain ⟨key, mac, hf, -, hinflight, -, hothers⟩ := store_cases hr
    have hne : k ≠ key := by
      rintro rfl
      exact hfree ((h.inflight _).mpr (List.mem_map_of_mem (List.mem_of_getElem? hf)))
    exact ⟨(hothers k hne).trans hmiss, hinflight ▸ hfree⟩
  | finish i =>
    obtain ⟨key, mac, result, hf, rfl⟩ := finish_cases hr
    exact ⟨hmiss, fun hk => hfree (Finmap.mem_erase.mp hk).2⟩

theorem run_open {es : List Event} {r r' : Resolver} (h : Inv r) (hr : run es r = some r')
    {k : Str} (he : ∀ e ∈ es, e.looksUp k = false) (ho : r.Open k) : r'.Open k := by
  induction es generalizing r with
  | nil => exact Option.some.inj hr ▸ ho
  | cons e es ih =>
    obtain ⟨r₁, hstep, hrest⟩ := run_cons hr
    have he' := List.forall_mem_cons.mp he
    exact ih (h.step hstep) hrest he'.2 (step_open h hstep he'.1 ho)

/-- What `Lookup` answers once a vendor is cached; none stands for an unknown OUI and for the
    marker of one. -/
def answer (vendor : Str) : Str := if vendor = unknownMarker then [] else vendor

/-- A cached key is answered, and starts nothing. -/
theorem lookup_cached {r : Resolver} {mac k vendor : Str} (hmac : ouiKey mac = some k)
    (hk : r.cache.lookup k = some (if vendor = [] then unknownMarker else vendor)) :
    r.lookup mac = (answer vendor, r) := by
  have hs : r.schedule k mac = r := by
    unfold schedule
    rw [hk]
  rw [lookup_eq hmac, hs, hk, Option.getD_some]
  unfold answer
  by_cases hv : vendor = []
  · rw [if_pos hv, if_pos rfl, hv, if_neg (by decide)]
  · rw [if_neg hv]

/-- An open key is fetched. -/
theorem lookup_open {r : Resolver} {mac k : Str} (hmac : ouiKey mac = some k) (ho : r.Open k) :
    (r.lookup mac).2.fetches = r.fetches ++ [⟨k, mac, .calling⟩] := by
  rw [lookup_eq hmac]
  unfold schedule
  rw [ho.1, if_neg ho.2]

/-- After a goroutine has stored a vendor, its key is answered with it for good. -/
theorem store_answers {r r₁ r' : Resolver} (h : Inv r) {i : Nat} {f : Fetch} {reply : Reply}
    {vendor : Str} (hf : r.fetches[i]? = some f) (hv : callAPI reply = some vendor)
    (hs : r.step (.store i reply) = some r₁) {es : List Event} (hr : run es r₁ = some r') {mac : Str}
    (hmac : ouiKey mac = some f.key) : r'.lookup mac = (answer vendor, r') := by
  obtain ⟨key, mac', hf', -, -, hself, -⟩ := store_cases hs
  obtain rfl := Option.some.inj (hf.symm.trans hf')
  rw [hv] at hself
  exact lookup_cached hmac (run_cached (h.store hs) hr hself)

/-- After a failed goroutine has ended, its key is open until it is looked up. -/
theorem finish_opens {r r₁ r' : Resolver} (h : Inv r) {i : Nat} {f : Fetch}
    (hf : r.fetches[i]? = some f) (hp : f.phase = .done none)
    (hs : r.step (.finish i) = some r₁) {es : List Event} (hr : run es r₁ = some r')
    (he : ∀ e ∈ es, e.looksUp f.key = false) : r'.Open f.key := by
  obtain ⟨key, mac', result, hf', rfl⟩ := finish_cases hs
  obtain rfl := Option.some.inj (hf.symm.trans hf')
  refine run_open (h.finish hs) hr he ⟨h.miss (List.mem_of_getElem? hf) (Or.inr hp), fun hk => ?_⟩
  exact (Finmap.mem_erase.mp hk).1 rfl

/-- What a state promises about its goroutines and about every run from it. -/
structure SingleFlight (r : Resolver) : Prop where
  /-- At most one goroutine for each key is between its scheduling and its removal, and there is
      one exactly when the key is in flight. -/
  flight : ∀ k, (r.fetches.filter fun f => f.key == k).length ≤ 1 ∧
    (k ∈ r.inflight ↔ ∃ f ∈ r.fetches, f.key = k)
  /-- Once a goroutine has stored a vendor, every lookup of its key is answered with that vendor
      and starts nothing. -/
  answered : ∀ i f reply vendor r₁ es r' mac, r.fetches[i]? = some f →
    callAPI reply = some vendor → r.step (.store i reply) = some r₁ → run es r₁ = some r' →
    ouiKey mac = some f.key → r'.lookup mac = (answer vendor, r')
  /-- Once a goroutine that failed has ended, the next lookup of its key starts another. -/
  reopened : ∀ i f r₁ es r' mac, r.fetches[i]? = some f → f.phase = .done none →
    r.step (.finish i) = some r₁ → run es r₁ = some r' → (∀ e ∈ es, e.looksUp f.key = false) →
    ouiKey mac = some f.key → (r'.lookup mac).2.fetches = r'.fetches ++ [⟨f.key, mac, .calling⟩]

theorem Inv.one_each {r : Resolver} (h : Inv r) (k : Str) :
    (r.fetches.filter fun f => f.key == k).length ≤ 1 := by
  have hcount := List.nodup_iff_count_le_one.mp h.distinct k
  rw [List.count, List.countP_map] at hcount
  rw [← List.countP_eq_length_filter]
  exact hcount

/-- **One flight for each key, one answer.** Every state of every run keeps those promises. -/
theorem single_flight (es : List Event) (r : Resolver) (h : run es {} = some r) :
    SingleFlight r := by
  have hinv := inv_new.run h
  refine ⟨fun k => ⟨hinv.one_each k, ?_⟩, fun i f reply vendor r₁ es' r' mac hf hv hs hr hmac => ?_,
    fun i f r₁ es' r' mac hf hp hs hr he hmac => ?_⟩
  · rw [hinv.inflight k, List.mem_map]
  · exact store_answers hinv hf hv hs hr hmac
  · exact lookup_open hmac (finish_opens hinv hf hp hs hr he)

/-- The API answers, and names the marker as the vendor. -/
def markerReply : Reply :=
  .response 200 (some { success := true, found := true, company := unknownMarker })

/-- One lookup, and its fetch up to the answer. -/
def oneFetch : List Event := [.lookup "aa:bb:cc:00:11:22".toList, .store 0 markerReply]

theorem single_flight_oneFetch : ∃ r, run oneFetch {} = some r ∧ SingleFlight r :=
  ⟨_, rfl, single_flight oneFetch _ rfl⟩

/-- A vendor of that name is not shown. -/
theorem marker_vendor_dropped : ∃ r, run oneFetch {} = some r ∧
    callAPI markerReply = some unknownMarker ∧ unknownMarker ≠ [] ∧
      (r.lookup "aa:bb:cc:00:11:22".toList).1 = [] :=
  ⟨_, rfl, rfl, by decide, by decide⟩

end Resolver

/-! ## What ouiKey checks -/

/-- Hex digits and separators only, six digits at least. -/
def WellFormed (mac : Str) : Prop := (∀ c ∈ mac, isOuiChar c = true) ∧ 6 ≤ (hexOf mac).length

/-- Something else after the sixth digit, and nothing else before it. -/
def JunkAfterSix (mac : Str) : Prop :=
  ∃ pre post, mac = pre ++ post ∧ (∀ c ∈ pre, isOuiChar c = true) ∧ (hexOf pre).length = 6 ∧
    ∃ c ∈ post, isOuiChar c = false

/-- What the comment on `ouiKey` promises for `mac`, and what follows: colon-separated MACs have the
    same key exactly when their first three octets agree, and a fetch that a lookup of `mac` starts
    requests an address made of hex digits and separators. -/
structure RejectsMalformed (mac : Str) : Prop where
  accepts : WellFormed mac → ouiKey mac = some ((hexOf mac).take 6)
  rejects : ¬ WellFormed mac → ouiKey mac = none
  octets : ∀ mac', groups isxdigit isColon 5 mac = true → groups isxdigit isColon 5 mac' = true →
    (ouiKey mac = ouiKey mac' ↔ (mac.take 8).map tolower = (mac'.take 8).map tolower)
  url : ∀ es r f, Resolver.run es {} = some r →
    (r.lookup mac).2.fetches = r.fetches ++ [f] → ∃ t, f.url = apiURL ++ t ∧ ∀ c ∈ t, isOuiChar c = true

theorem hexOf_append (s t : Str) : hexOf (s ++ t) = hexOf s ++ hexOf t := by
  rw [hexOf, List.filter_append, List.map_append, hexOf, hexOf]

/-- A string with `n` digits or more has a beginning with `n` of them. -/
theorem exists_hexOf_length {n : Nat} (s : Str) (h : n ≤ (hexOf s).length) :
    ∃ pre post, s = pre ++ post ∧ (hexOf pre).length = n := by
  induction s generalizing n with
  | nil => exact ⟨[], [], rfl, (Nat.le_zero.mp h).symm⟩
  | cons c cs ih =>
    cases n with
    | zero => exact ⟨[], c :: cs, rfl, rfl⟩
    | succ n =>
      by_cases hx : isxdigit c = true
      · rw [hexOf_digit hx, List.length_cons] at h
        obtain ⟨pre, post, rfl, hlen⟩ := ih (Nat.le_of_succ_le_succ h)
        exact ⟨c :: pre, post, rfl, by rw [hexOf_digit hx, List.length_cons, hlen]⟩
      · have hskip : ∀ t, hexOf (c :: t) = hexOf t := fun t => by
          rw [hexOf, List.filter_cons_of_neg hx, hexOf]
        rw [hskip] at h
        obtain ⟨pre, post, rfl, hlen⟩ := ih h
        exact ⟨c :: pre, post, rfl, by rw [hskip, hlen]⟩

theorem ouiKey_wellFormed {mac : Str} (h : WellFormed mac) :
    ouiKey mac = some ((hexOf mac).take 6) := by
  obtain ⟨pre, post, rfl, hlen⟩ := exists_hexOf_length mac h.2
  refine ouiKey_iff.mpr ⟨pre, post, rfl, fun c hc => h.1 c (List.mem_append_left _ hc), hlen, ?_⟩
  rw [hexOf_append, ← hlen, List.take_left]

/-- A string with a key is well formed, or has junk after it. -/
theorem wellFormed_or_junk {mac k : Str} (h : ouiKey mac = some k) :
    WellFormed mac ∨ JunkAfterSix mac := by
  obtain ⟨pre, post, rfl, hpre, hlen, rfl⟩ := ouiKey_iff.mp h
  by_cases hpost : ∀ c ∈ post, isOuiChar c = true
  · refine Or.inl ⟨fun c hc => (List.mem_append.mp hc).elim (hpre c) (hpost c), ?_⟩
    rw [hexOf_append, List.length_append]
    omega
  · push Not at hpost
    obtain ⟨c, hc, hbad⟩ := hpost
    exact Or.inr ⟨pre, post, rfl, hpre, hlen, c, hc, Bool.eq_false_iff.mpr hbad⟩

theorem JunkAfterSix.not_wellFormed {mac : Str} (h : JunkAfterSix mac) : ¬ WellFormed mac := by
  obtain ⟨pre, post, rfl, -, -, c, hc, hbad⟩ := h
  intro hwf
  rw [hwf.1 c (List.mem_append_right _ hc)] at hbad
  cases hbad

/-- A fetch that a lookup starts is of the MAC it was called with. -/
theorem started_mac {r : Resolver} {mac : Str} {f : Fetch}
    (h : (r.lookup mac).2.fetches = r.fetches ++ [f]) : f.mac = mac ∧ ∃ k, ouiKey mac = some k := by
  have hnone : r.fetches ≠ r.fetches ++ [f] := fun he => by simpa using congrArg List.length he
  cases hmac : ouiKey mac with
  | none =>
    rw [Resolver.lookup_malformed hmac] at h
    exact absurd h hnone
  | some key =>
    rw [Resolver.lookup_eq hmac] at h
    rcases Resolver.schedule_cases r key mac with ⟨_, hs⟩ | ⟨_, hs⟩
    · rw [hs] at h
      exact absurd h hnone
    · rw [hs] at h
      have hf := List.singleton_inj.mp (List.append_cancel_left h)
      exact ⟨hf ▸ rfl, key, rfl⟩

/-- The first octet of a colon-separated MAC. -/
theorem groups_octet {n : Nat} {s : Str} (h : groups isxdigit isColon (n + 1) s = true) :
    ∃ x y rest, s = x :: y :: ':' :: rest ∧ isxdigit x = true ∧ isxdigit y = true ∧
      groups isxdigit isColon n rest = true := by
  rcases s with _ | ⟨x, _ | ⟨y, _ | ⟨c, rest⟩⟩⟩
  · cases h
  · cases h
  · cases h
  · simp only [groups, Bool.and_eq_true, isColon, beq_iff_eq] at h
    obtain ⟨⟨⟨hx, hy⟩, rfl⟩, hrest⟩ := h
    exact ⟨x, y, rest, rfl, hx, hy, hrest⟩

/-- The key of a colon-separated MAC, in either letter case, is its first three octets. -/
theorem ouiKey_octets {mac : Str} (h : groups isxdigit isColon 5 mac = true) :
    ∃ a b c d e f : Char, ouiKey mac = some [a, b, c, d, e, f] ∧
      (mac.take 8).map tolower = [a, b, ':', c, d, ':', e, f] := by
  have hchars : ∀ x ∈ mac, isOuiChar x = true := fun x hx => by
    rcases groups_mem h x hx with hd | hs
    · rw [isOuiChar, hd, Bool.true_or]
    · simp only [isColon, beq_iff_eq] at hs
      subst hs
      decide
  obtain ⟨a, b, s₁, rfl, ha, hb, h₁⟩ := groups_octet h
  obtain ⟨c, d, s₂, rfl, hc, hd, h₂⟩ := groups_octet h₁
  obtain ⟨e, f, s₃, rfl, he, hf, -⟩ := groups_octet h₂
  have hcolon : isOuiSep ':' = true := by decide
  have hhex : hexOf (a :: b :: ':' :: c :: d :: ':' :: e :: f :: ':' :: s₃) =
      tolower a :: tolower b :: tolower c :: tolower d :: tolower e :: tolower f :: hexOf s₃ := by
    rw [hexOf_digit ha, hexOf_digit hb, hexOf_sep hcolon, hexOf_digit hc, hexOf_digit hd,
      hexOf_sep hcolon, hexOf_digit he, hexOf_digit hf, hexOf_sep hcolon]
  have hwf : WellFormed (a :: b :: ':' :: c :: d :: ':' :: e :: f :: ':' :: s₃) :=
    ⟨hchars, by rw [hhex]; simp⟩
  refine ⟨tolower a, tolower b, tolower c, tolower d, tolower e, tolower f, ?_, ?_⟩
  · rw [ouiKey_wellFormed hwf, hhex]
    rfl
  · rfl

theorem ouiKey_eq_iff {a b : Str} (ha : groups isxdigit isColon 5 a = true)
    (hb : groups isxdigit isColon 5 b = true) :
    ouiKey a = ouiKey b ↔ (a.take 8).map tolower = (b.take 8).map tolower := by
  obtain ⟨a₁, a₂, a₃, a₄, a₅, a₆, hka, hta⟩ := ouiKey_octets ha
  obtain ⟨b₁, b₂, b₃, b₄, b₅, b₆, hkb, htb⟩ := ouiKey_octets hb
  rw [hka, hkb, hta, htb]
  simp

/-- **What ouiKey rejects.** A string is treated as promised exactly when it has no junk after its
    sixth hex digit. -/
theorem rejectsMalformed_iff (mac : Str) : RejectsMalformed mac ↔ ¬ JunkAfterSix mac := by
  constructor
  · intro hlaw hjunk
    have hnone := hlaw.rejects hjunk.not_wellFormed
    obtain ⟨pre, post, hmac, hpre, hlen, -⟩ := hjunk
    rw [ouiKey_iff.mpr ⟨pre, post, hmac, hpre, hlen, rfl⟩] at hnone
    cases hnone
  · intro hjunk
    refine ⟨ouiKey_wellFormed, fun hbad => ?_, fun mac' h h' => ouiKey_eq_iff h h',
      fun es r f _ hf => ?_⟩
    · cases hk : ouiKey mac with
      | none => rfl
      | some k => exact absurd (wellFormed_or_junk hk) (not_or.mpr ⟨hbad, hjunk⟩)
    · obtain ⟨hmac, k, hk⟩ := started_mac hf
      have hwf := (wellFormed_or_junk hk).resolve_right hjunk
      exact ⟨f.mac, rfl, fun c hc => hwf.1 c (hmac ▸ hc)⟩

/-- A path behind the first three octets of a MAC. -/
def pathMac : Str := "aa:bb:cc/../x".toList

/-- It has a key, and its fetch requests it. -/
theorem path_looked_up : ¬ RejectsMalformed pathMac ∧ ouiKey pathMac = some "aabbcc".toList ∧
    ∃ f, (Resolver.lookup {} pathMac).2.fetches = [f] ∧ f.url = apiURL ++ pathMac := by
  have hkey : ouiKey pathMac = some "aabbcc".toList := by decide
  have hbad : ¬ WellFormed pathMac := fun hwf => absurd (hwf.1 '/' (by decide)) (by decide)
  refine ⟨fun hlaw => ?_, hkey, _, rfl, rfl⟩
  have hnone := hlaw.rejects hbad
  rw [hkey] at hnone
  cases hnone

end Netparent.Web
