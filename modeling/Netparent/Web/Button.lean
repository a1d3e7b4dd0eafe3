/-
  app.js: the paths it asks for, and what comes of them.

  An id and an address go into a path by `encodeURIComponent`. The browser takes dot segments out of the path,
  the server cleans what is left and matches it segment by segment, and what the handler is given is what was
  put in, unless it is empty, one of the dot segments, or a slash. So a button's request makes the
  server send a command exactly when neither the id nor the address is one of those and the address
  is spelled like a MAC, and the command is for this id and this address (`toggle_commands`).

  A `Char` is one byte of the UTF-8 of a JavaScript string.
-/
import Netparent.Web.Gate

namespace Netparent.Web

open ServeMux (Url Found findHandler segmentsOf Matches joined validByte)

/-! ## Paths -/

/-- The bytes `encodeURIComponent` leaves. -/
def uriByte (c : Char) : Bool := c.isAlphanum || "-_.!~*'()".toList.contains c

def encodeURIComponent (s : Str) : Str := Percent.encode uriByte s

/-- The path of `loadDevices`. -/
def devicesPath (id : Str) : Str := "/api/routers/".toList ++ encodeURIComponent id ++ "/devices".toList

/-- The path of `toggle`. -/
def togglePath (id mac action : Str) : Str :=
  "/api/routers/".toList ++ encodeURIComponent id ++ "/devices/".toList ++ encodeURIComponent mac ++
    '/' :: action

def isSingleDot (s : Str) : Bool := [".".toList, "%2e".toList].contains (s.map tolower)

def isDoubleDot (s : Str) : Bool :=
  ["..".toList, ".%2e".toList, "%2e.".toList, "%2e%2e".toList].contains (s.map tolower)

def isDot (s : Str) : Bool := isDoubleDot s || isSingleDot s

def push (stack : List Str) (s : Str) : List Str :=
  if isDoubleDot s then stack.tail else if isSingleDot s then stack else s :: stack

/-- The segments of a path as a browser parses it. A dot segment at the end leaves an empty one. -/
def resolve (ss : List Str) : List Str :=
  (ss.foldl push []).reverse ++ if ss.getLast?.any isDot then [[]] else []

/-- What the browser puts into the request line for a path in which every byte is safe. -/
def browserPath (path : Str) : Str := joined (resolve (path.tail.splitOn '/'))

/-- The request of a button. -/
def toggleRequest (id mac : Str) (block : Bool) (cookie : Option Str) : Incoming where
  method := "POST".toList
  target := browserPath (togglePath id mac (actionOf block))
  cookie := cookie

/-- The request of `loadDevices`. -/
def devicesRequest (id : Str) (cookie : Option Str) : Incoming where
  method := "GET".toList
  target := browserPath (devicesPath id)
  cookie := cookie

/-- What gets through as a segment. -/
structure Addressable (s : Str) : Prop where
  nonempty : s ≠ []
  notDot : s ≠ ['.']
  notDots : s ≠ ['.', '.']
  notSlash : s ≠ ['/']

instance (s : Str) : Decidable (Addressable s) :=
  decidable_of_iff (s ≠ [] ∧ s ≠ ['.'] ∧ s ≠ ['.', '.'] ∧ s ≠ ['/'])
    ⟨fun ⟨h₁, h₂, h₃, h₄⟩ => ⟨h₁, h₂, h₃, h₄⟩, fun h => ⟨h.1, h.2, h.3, h.4⟩⟩

/-! ## What the browser leaves -/

theorem push_cases (stack : List Str) (s : Str) :
    (isDot s = true ∧ (push stack s = stack.tail ∨ push stack s = stack)) ∨
      (isDot s = false ∧ push stack s = s :: stack) := by
  unfold isDot push
  cases hd : isDoubleDot s with
  | true => exact Or.inl ⟨rfl, Or.inl rfl⟩
  | false =>
    cases hs : isSingleDot s with
    | true => exact Or.inl ⟨rfl, Or.inr rfl⟩
    | false => exact Or.inr ⟨rfl, rfl⟩

theorem push_plain {s : Str} (h : isDot s = false) (stack : List Str) : push stack s = s :: stack := by
  rcases push_cases stack s with ⟨hdot, -⟩ | ⟨-, heq⟩
  · rw [h] at hdot
    cases hdot
  · exact heq

theorem pushed_mem {ss stack : List Str} {s : Str} (h : s ∈ ss.foldl push stack) :
    s ∈ stack ∨ s ∈ ss := by
  induction ss generalizing stack with
  | nil => exact Or.inl h
  | cons t ts ih =>
    rcases ih h with h | h
    · rcases push_cases stack t with ⟨-, heq | heq⟩ | ⟨-, heq⟩
      · rw [heq] at h
        exact Or.inl (List.mem_of_mem_tail h)
      · rw [heq] at h
        exact Or.inl h
      · rw [heq] at h
        rcases List.mem_cons.mp h with rfl | h
        · exact Or.inr List.mem_cons_self
        · exact Or.inl h
    · exact Or.inr (List.mem_cons_of_mem _ h)

theorem pushed_length (ss stack : List Str) : (ss.foldl push stack).length ≤ stack.length + ss.length := by
  induction ss generalizing stack with
  | nil => exact le_refl _
  | cons t ts ih =>
    have hpush : (push stack t).length ≤ stack.length + 1 := by
      rcases push_cases stack t with ⟨-, heq | heq⟩ | ⟨-, heq⟩
      · rw [heq, List.length_tail]
        omega
      · rw [heq]
        omega
      · rw [heq, List.length_cons]
    have hts := ih (push stack t)
    rw [List.foldl_cons, List.length_cons]
    omega

/-- As many segments are left as there were only when none is a dot segment. -/
theorem pushed_full {ss stack : List Str} (h : (ss.foldl push stack).length = stack.length + ss.length) :
    ∀ s ∈ ss, isDot s = false := by
  induction ss generalizing stack with
  | nil => exact nofun
  | cons t ts ih =>
    rw [List.foldl_cons, List.length_cons] at h
    rcases push_cases stack t with ⟨-, heq⟩ | ⟨ht, heq⟩
    · have hts := pushed_length ts (push stack t)
      have hle : (push stack t).length ≤ stack.length := by
        rcases heq with heq | heq
        · rw [heq, List.length_tail]
          omega
        · rw [heq]
      omega
    · rw [heq] at h
      exact List.forall_mem_cons.mpr ⟨ht, ih (by rw [h, List.length_cons]; omega)⟩

theorem pushed_plain {ss : List Str} (h : ∀ s ∈ ss, isDot s = false) (stack : List Str) :
    ss.foldl push stack = ss.reverse ++ stack := by
  induction ss generalizing stack with
  | nil => rfl
  | cons t ts ih =>
    obtain ⟨ht, hts⟩ := List.forall_mem_cons.mp h
    rw [List.foldl_cons, push_plain ht, ih hts, List.reverse_cons, List.append_assoc]
    rfl

/-- A last segment that is plain stays where it is. -/
theorem resolve_concat {s : Str} (h : isDot s = false) (ss : List Str) :
    resolve (ss ++ [s]) = (ss.foldl push []).reverse ++ [s] := by
  unfold resolve
  rw [List.getLast?_concat, Option.any_some, if_neg (by rw [h]; exact Bool.false_ne_true), List.append_nil,
    List.foldl_concat, push_plain h, List.reverse_cons]

/-! ## Encoded segments -/

theorem uriByte_percent : uriByte '%' = false := by decide

theorem uriByte_valid {c : Char} (h : uriByte c = true) : validByte c = true := by
  have hmarks : "-_.!~*'()".toList.all validByte = true := by decide +kernel
  rcases Bool.or_eq_true_iff.mp h with ha | hm
  · simp [validByte, ServeMux.plainByte, ha]
  · exact List.all_eq_true.mp hmarks c (List.contains_iff_mem.mp hm)

/-- The bytes of an encoded text. -/
theorem mem_encodeURIComponent {s : Str} (hb : ∀ c ∈ s, c.toNat < 256) {d : Char}
    (hd : d ∈ encodeURIComponent s) : validByte d = true ∧ d ≠ '/' := by
  rcases Percent.mem_encode hb hd with ⟨hk, -⟩ | rfl | hdigit
  · refine ⟨uriByte_valid hk, ?_⟩
    rintro rfl
    exact absurd hk (by decide)
  · decide
  · have hall : (Percent.digits.all fun c => validByte c && c != '/') = true := by decide +kernel
    simpa using List.all_eq_true.mp hall d hdigit

theorem decode_component {s : Str} (hb : ∀ c ∈ s, c.toNat < 256) :
    Percent.decode (encodeURIComponent s) = some s := Percent.decode_encode uriByte_percent hb

theorem unescape_component {s : Str} (hb : ∀ c ∈ s, c.toNat < 256) :
    ServeMux.pathUnescape (encodeURIComponent s) = s := by
  rw [ServeMux.pathUnescape, decode_component hb]
  rfl

theorem component_ne_nil_iff (s : Str) : encodeURIComponent s ≠ [] ↔ s ≠ [] := by
  constructor
  · rintro h rfl
    exact h rfl
  · exact Percent.encode_ne_nil

/-- The characters that are lowered to one of a dot segment. -/
theorem tolower_dot {c d : Char} (h : tolower c = d) (hd : d ∈ ['.', '%', '2', 'e']) :
    c = d ∨ (d = 'e' ∧ c = 'E') := by
  by_cases hupper : 'A' ≤ c ∧ c ≤ 'Z'
  · have hall : ∀ k : Fin 26, tolower (Char.ofNat (65 + k)) ∈ ['.', '%', '2', 'e'] →
        k = 4 := by decide +kernel
    have hlo : 65 ≤ c.toNat := hupper.1
    have hhi : c.toNat ≤ 90 := hupper.2
    have hk := hall ⟨c.toNat - 65, by omega⟩
    rw [show 65 + (c.toNat - 65) = c.toNat by omega, Char.ofNat_toNat, h] at hk
    have hcode : c.toNat - 65 = 4 := congrArg Fin.val (hk hd)
    have hc : c = 'E' := by rw [← Char.ofNat_toNat c, show c.toNat = 69 by omega]
    subst hc
    exact Or.inr ⟨h.symm, rfl⟩
  · exact Or.inl ((if_neg hupper).symm.trans h)

theorem map_tolower_cons {s w : Str} {d : Char} (h : s.map tolower = d :: w)
    (hd : d ∈ ['.', '%', '2', 'e']) : ∃ c t, s = c :: t ∧ (c = d ∨ (d = 'e' ∧ c = 'E')) ∧
      t.map tolower = w := by
  obtain ⟨c, t, rfl, hc, ht⟩ := List.map_eq_cons_iff.mp h
  exact ⟨c, t, rfl, tolower_dot hc hd, ht⟩

/-- The two ways to write a dot in front of what is left. -/
theorem decode_dot_cons {s w : Str} (h : s.map tolower = '.' :: w ∨ s.map tolower = '%' :: '2' :: 'e' :: w) :
    ∃ t, t.map tolower = w ∧ Percent.decode s = (Percent.decode t).map ('.' :: ·) := by
  rcases h with h | h
  · obtain ⟨c, t, rfl, hc, ht⟩ := map_tolower_cons h (by simp)
    obtain rfl := hc.resolve_right fun he => absurd he.1 (by decide)
    exact ⟨t, ht, Percent.decode_plain (by decide) t⟩
  · obtain ⟨c₁, t₁, rfl, h₁, ht₁⟩ := map_tolower_cons h (by simp)
    obtain ⟨c₂, t₂, rfl, h₂, ht₂⟩ := map_tolower_cons ht₁ (by simp)
    obtain ⟨c₃, t₃, rfl, h₃, ht₃⟩ := map_tolower_cons ht₂ (by simp)
    obtain rfl := h₁.resolve_right fun he => absurd he.1 (by decide)
    obtain rfl := h₂.resolve_right fun he => absurd he.1 (by decide)
    rcases h₃ with rfl | ⟨-, rfl⟩ <;> exact ⟨t₃, ht₃, rfl⟩

/-- A dot segment decodes to dots. -/
theorem decode_dot {s : Str} (h : isDot s = true) :
    Percent.decode s = some ['.'] ∨ Percent.decode s = some ['.', '.'] := by
  have hone : ∀ {t : Str}, t.map tolower = ['.'] ∨ t.map tolower = ['%', '2', 'e'] →
      Percent.decode t = some ['.'] := by
    intro t ht
    obtain ⟨u, hu, hdecode⟩ := decode_dot_cons ht
    rw [hdecode, List.map_eq_nil_iff.mp hu]
    rfl
  rcases Bool.or_eq_true_iff.mp h with h | h
  · right
    have hmem : s.map tolower ∈ [['.', '.'], ['.', '%', '2', 'e'], ['%', '2', 'e', '.'],
        ['%', '2', 'e', '%', '2', 'e']] := List.contains_iff_mem.mp h
    simp only [List.mem_cons, List.not_mem_nil, or_false] at hmem
    obtain ⟨w, hs, hw⟩ : ∃ w, (s.map tolower = '.' :: w ∨ s.map tolower = '%' :: '2' :: 'e' :: w) ∧
        (w = ['.'] ∨ w = ['%', '2', 'e']) := by
      rcases hmem with h | h | h | h
      · exact ⟨_, Or.inl h, Or.inl rfl⟩
      · exact ⟨_, Or.inl h, Or.inr rfl⟩
      · exact ⟨_, Or.inr h, Or.inl rfl⟩
      · exact ⟨_, Or.inr h, Or.inr rfl⟩
    obtain ⟨t, rfl, hdecode⟩ := decode_dot_cons hs
    rw [hdecode, hone hw]
    rfl
  · left
    have hmem : s.map tolower ∈ [['.'], ['%', '2', 'e']] := List.contains_iff_mem.mp h
    simp only [List.mem_cons, List.not_mem_nil, or_false] at hmem
    exact hone hmem

/-- An encoded text is a dot segment only when the text is one. -/
theorem component_not_dot {s : Str} (hb : ∀ c ∈ s, c.toNat < 256) :
    isDot (encodeURIComponent s) = false ↔ s ≠ ['.'] ∧ s ≠ ['.', '.'] := by
  constructor
  · intro h
    constructor
    · rintro rfl
      exact absurd h (by decide +kernel)
    · rintro rfl
      exact absurd h (by decide +kernel)
  · rintro ⟨hone, htwo⟩
    by_contra hdot
    rw [Bool.not_eq_false] at hdot
    rcases decode_dot hdot with h | h
    · rw [decode_component hb] at h
      exact hone (Option.some.inj h)
    · rw [decode_component hb] at h
      exact htwo (Option.some.inj h)

theorem unescape_components {ws : List Str} (h : ∀ w ∈ ws, ∀ c ∈ w, c.toNat < 256) :
    (ws.map encodeURIComponent).map ServeMux.pathUnescape = ws := by
  rw [List.map_map]
  exact (List.map_congr_left fun w hw => unescape_component (h w hw)).trans (List.map_id _)

/-- A path made of encoded segments. -/
def uriPath (vs : List Str) : Str := joined (vs.map encodeURIComponent)

/-- Bytes that are no dot segment. -/
structure Plain (v : Str) : Prop where
  bytes : ∀ c ∈ v, c.toNat < 256
  nonempty : v ≠ []
  notDot : v ≠ ['.']
  notDots : v ≠ ['.', '.']

theorem Plain.clean {v : Str} (hv : Plain v) : ServeMux.Clean (encodeURIComponent v) := by
  have hdot := (component_not_dot hv.bytes).mpr ⟨hv.notDot, hv.notDots⟩
  refine ⟨(component_ne_nil_iff v).mpr hv.nonempty, fun hc => (mem_encodeURIComponent hv.bytes hc).2 rfl,
    fun he => ?_, fun he => ?_⟩
  · rw [he] at hdot
    exact absurd hdot (by decide +kernel)
  · rw [he] at hdot
    exact absurd hdot (by decide +kernel)

section Browser

variable {vs : List Str} {v : Str} (hb : ∀ w ∈ vs, ∀ c ∈ w, c.toNat < 256) (hv : Plain v)
include hb hv

theorem sent_component {t : Str} (ht : t ∈ ((vs.map encodeURIComponent).foldl push []).reverse ++
    [encodeURIComponent v]) : ∃ w, t = encodeURIComponent w ∧ ∀ c ∈ w, c.toNat < 256 := by
  rcases List.mem_append.mp ht with ht | ht
  · obtain ⟨w, hw, rfl⟩ := List.mem_map.mp ((pushed_mem (List.mem_reverse.mp ht)).resolve_left nofun)
    exact ⟨w, rfl, hb w hw⟩
  · exact ⟨v, List.mem_singleton.mp ht, hv.bytes⟩

/-- The URL the server makes of a path: the segments the browser has left. -/
theorem browser_url : ∃ u, Url.parse (browserPath (uriPath (vs ++ [v]))) = some u ∧
    u.escapedPath =
      joined (((vs.map encodeURIComponent).foldl push []).reverse ++ [encodeURIComponent v]) := by
  have hno : ∀ t ∈ vs.map encodeURIComponent ++ [encodeURIComponent v], '/' ∉ t := fun t ht => by
    rw [← List.map_singleton, ← List.map_append] at ht
    obtain ⟨w, hw, rfl⟩ := List.mem_map.mp ht
    have hbytes : ∀ c ∈ w, c.toNat < 256 := by
      rcases List.mem_append.mp hw with hw | hw
      · exact hb w hw
      · exact List.mem_singleton.mp hw ▸ hv.bytes
    exact fun hc => (mem_encodeURIComponent hbytes hc).2 rfl
  rw [browserPath, uriPath, List.map_append, List.map_singleton, ServeMux.splitOn_joined (by simp) hno,
    resolve_concat ((component_not_dot hv.bytes).mpr ⟨hv.notDot, hv.notDots⟩)]
  refine ServeMux.parse_joined (fun t ht c hc => ?_) fun t ht => ?_
  · obtain ⟨w, rfl, hw⟩ := sent_component hb hv ht
    exact (mem_encodeURIComponent hw hc).1
  · obtain ⟨w, rfl, hw⟩ := sent_component hb hv ht
    rw [decode_component hw]
    nofun

/-- When the path is found clean and none of its segments is missing, all were plain, and the server has
    what was encoded. -/
theorem segments_left {u : Url} (hu : Url.parse (browserPath (uriPath (vs ++ [v]))) = some u)
    (hclean : ServeMux.cleanPath u.escapedPath = u.escapedPath)
    (hlength : (segmentsOf u.escapedPath).length = vs.length + 1) :
    (∀ w ∈ vs, Plain w) ∧ segmentsOf u.escapedPath = vs ++ [v] := by
  obtain ⟨u', hu', hescaped⟩ := browser_url hb hv
  obtain rfl : u' = u := Option.some.inj (hu'.symm.trans hu)
  have hno : ∀ t ∈ ((vs.map encodeURIComponent).foldl push []).reverse ++ [encodeURIComponent v], '/' ∉ t :=
    fun t ht => by
      obtain ⟨w, rfl, hw⟩ := sent_component hb hv ht
      exact fun hc => (mem_encodeURIComponent hw hc).2 rfl
  rw [hescaped] at hclean
  have hfull := ServeMux.nonempty_of_clean hv.clean.nonempty hno hclean
  have hsegments := ServeMux.segmentsOf_joined (by simp) hfull hno
  rw [← hescaped] at hsegments
  rw [hsegments, List.length_map, List.length_append, List.length_reverse, List.length_singleton] at hlength
  have hkept : ((vs.map encodeURIComponent).foldl push []).length =
      ([] : List Str).length + (vs.map encodeURIComponent).length := by
    rw [List.length_nil, List.length_map]
    omega
  have hplain := pushed_full hkept
  rw [pushed_plain hplain, List.append_nil, List.reverse_reverse] at hfull hsegments
  refine ⟨fun w hw => ?_, ?_⟩
  · have hmem : encodeURIComponent w ∈ vs.map encodeURIComponent := List.mem_map_of_mem hw
    obtain ⟨hone, htwo⟩ := (component_not_dot (hb w hw)).mp (hplain _ hmem)
    exact ⟨hb w hw, (component_ne_nil_iff w).mp (hfull _ (List.mem_append_left _ hmem)), hone, htwo⟩
  · rw [hsegments, ← List.map_singleton, ← List.map_append, unescape_components]
    intro w hw
    rcases List.mem_append.mp hw with hw | hw
    · exact hb w hw
    · exact List.mem_singleton.mp hw ▸ hv.bytes

end Browser

/-- Plain segments get through. -/
theorem browser_plain {vs : List Str} (hne : vs ≠ []) (h : ∀ v ∈ vs, Plain v) :
    ∃ u, Url.parse (browserPath (uriPath vs)) = some u ∧ u.escapedPath = uriPath vs ∧
      ServeMux.cleanPath (uriPath vs) = uriPath vs ∧ segmentsOf (uriPath vs) = vs := by
  obtain ⟨init, v, rfl⟩ := List.eq_nil_or_concat vs |>.resolve_left hne
  rw [List.concat_eq_append] at h ⊢
  have hdot : ∀ t ∈ init.map encodeURIComponent, isDot t = false := fun t ht => by
    obtain ⟨w, hw, rfl⟩ := List.mem_map.mp ht
    obtain ⟨hbytes, _, hone, htwo⟩ := h w (List.mem_append_left _ hw)
    exact (component_not_dot hbytes).mpr ⟨hone, htwo⟩
  have hclean : ∀ t ∈ (init ++ [v]).map encodeURIComponent, ServeMux.Clean t := fun t ht => by
    obtain ⟨w, hw, rfl⟩ := List.mem_map.mp ht
    exact (h w hw).clean
  have hbytes : ∀ w ∈ init, ∀ c ∈ w, c.toNat < 256 := fun w hw => (h w (List.mem_append_left _ hw)).bytes
  obtain ⟨u, hu, hescaped⟩ := browser_url hbytes (h v (by simp))
  rw [pushed_plain hdot, List.append_nil, List.reverse_reverse, ← List.map_singleton,
    ← List.map_append] at hescaped
  refine ⟨u, hu, hescaped, ServeMux.cleanPath_joined (by simp) hclean, ?_⟩
  rw [uriPath, ServeMux.segmentsOf_joined (by simp) (fun t ht => (hclean t ht).nonempty)
    fun t ht => (hclean t ht).oneSegment, unescape_components fun w hw => (h w hw).bytes]

/-! ## The handlers -/

/-- The segments of `devicesPath`, and those that `toggle` puts behind them. -/
def devicesSegments (id : Str) : List Str := ["api".toList, "routers".toList, id, "devices".toList]

def toggleSegments (id mac action : Str) : List Str := devicesSegments id ++ [mac, action]

theorem devicesPath_eq (id : Str) : devicesPath id = uriPath (devicesSegments id) := by
  have hapi : encodeURIComponent "api".toList = "api".toList := rfl
  have hrouters : encodeURIComponent "routers".toList = "routers".toList := rfl
  have hdevices : encodeURIComponent "devices".toList = "devices".toList := rfl
  unfold devicesPath uriPath joined devicesSegments
  simp only [List.map_cons, List.map_nil, hapi, hrouters, hdevices, List.intercalate_cons_cons,
    List.intercalate_singleton]
  simp only [List.append_assoc]
  rfl

theorem togglePath_eq (id mac : Str) (block : Bool) :
    togglePath id mac (actionOf block) = uriPath (toggleSegments id mac (actionOf block)) := by
  have hapi : encodeURIComponent "api".toList = "api".toList := rfl
  have hrouters : encodeURIComponent "routers".toList = "routers".toList := rfl
  have hdevices : encodeURIComponent "devices".toList = "devices".toList := rfl
  have haction : encodeURIComponent (actionOf block) = actionOf block := by cases block <;> rfl
  unfold togglePath uriPath joined toggleSegments devicesSegments
  simp only [List.cons_append, List.nil_append, List.map_cons, List.map_nil, hapi, hrouters, hdevices,
    haction, List.intercalate_cons_cons, List.intercalate_singleton]
  simp only [List.append_assoc]
  rfl

theorem plain_of_all {v : Str} (hb : (v.all fun c => decide (c.toNat < 256)) = true) (hne : v ≠ [])
    (hone : v ≠ ['.']) (htwo : v ≠ ['.', '.']) : Plain v :=
  ⟨fun c hc => of_decide_eq_true (List.all_eq_true.mp hb c hc), hne, hone, htwo⟩

theorem plain_word : ∀ v ∈ ["api".toList, "routers".toList, "devices".toList, "block".toList,
    "unblock".toList], Plain v := by
  intro v hv
  simp only [List.mem_cons, List.not_mem_nil, or_false] at hv
  rcases hv with rfl | rfl | rfl | rfl | rfl <;>
    exact plain_of_all (by decide) (by decide) (by decide) (by decide)

/-- Nothing but the catch-all takes a path under `/api`. -/
theorem mux_api {q : ServeMux.Route Endpoint} (hq : q ∈ mux) {ss ws : List Str}
    (h : Matches q.segments ("api".toList :: ss) ws) : q = ⟨none, [.rest], .app⟩ ∧ ws = [] := by
  simp only [mux, List.mem_cons, List.not_mem_nil, or_false] at hq
  rcases hq with rfl | rfl | rfl | rfl | rfl
  · cases h
  · cases h
  · cases h
  · cases h
  · cases h
    exact ⟨rfl, rfl⟩

/-- Such a path is handed to the mux behind the login. -/
theorem app_found {vs : List Str} (h : ∀ v ∈ vs, Plain v) (method : Str) {u : Url}
    (hu : u.escapedPath = uriPath ("api".toList :: vs)) : findHandler mux method u = .handler .app [] := by
  have hall : ∀ v ∈ "api".toList :: vs, Plain v :=
    List.forall_mem_cons.mpr ⟨plain_word _ List.mem_cons_self, h⟩
  obtain ⟨_, _, _, hclean, hsegments⟩ := browser_plain (List.cons_ne_nil _ _) hall
  have hclean' : ∀ t ∈ ("api".toList :: vs).map encodeURIComponent, ServeMux.Clean t := fun t ht => by
    obtain ⟨w, hw, rfl⟩ := List.mem_map.mp ht
    exact (hall w hw).clean
  have hmatch : ServeMux.matchMethodAndPath mux method (uriPath ("api".toList :: vs)) =
      some (⟨none, [.rest], .app⟩, []) := by
    refine ServeMux.matchMethodAndPath_of_only (by simp [mux]) (Or.inr (Or.inr rfl)) ?_ fun q hq ws _ hm => ?_
    · rw [hsegments]
      exact .rest _ _
    · rw [hsegments] at hm
      exact mux_api hq hm
  -- the path with a slash behind it leads to the catch-all, too
  have hslash : ∀ m, ServeMux.matchMethodAndPath mux method (uriPath ("api".toList :: vs) ++ ['/']) = some m →
      ServeMux.exactMatch m.1 (uriPath ("api".toList :: vs) ++ ['/']) = false := by
    rintro ⟨q, ws⟩ hm
    obtain ⟨hq, _, hmq⟩ := ServeMux.matchMethodAndPath_sound hm
    have hno : ∀ t ∈ encodeURIComponent "api".toList :: vs.map encodeURIComponent, '/' ∉ t := fun t ht =>
      (hclean' t ht).oneSegment
    obtain ⟨ss, hss⟩ := ServeMux.segmentsOf_slash hno
    rw [uriPath, List.map_cons, hss] at hmq
    obtain ⟨rfl, -⟩ := mux_api hq hmq
    exact ServeMux.exactMatch_rest rfl _
  have hlast : (uriPath ("api".toList :: vs)).getLast? ≠ some '/' := by
    obtain ⟨init, v, hv⟩ := List.eq_nil_or_concat ("api".toList :: vs) |>.resolve_left (List.cons_ne_nil _ _)
    rw [List.concat_eq_append] at hv
    have hvclean := hclean' (encodeURIComponent v) (List.mem_map_of_mem (by rw [hv]; simp))
    rw [uriPath, hv, List.map_append, List.map_singleton, ServeMux.joined_getLast hvclean.nonempty]
    exact fun hl => hvclean.oneSegment (List.mem_of_getLast? hl)
  have hexact : ServeMux.exactMatch (⟨none, [.rest], .app⟩ : ServeMux.Route Endpoint)
      (uriPath ("api".toList :: vs)) = false := by
    unfold ServeMux.exactMatch
    rw [if_neg (by simp), if_pos hlast]
  rw [← hu] at hclean hmatch hlast hexact hslash
  refine ServeMux.findHandler_of_match hclean hmatch ?_
  unfold ServeMux.slashRedirect
  rw [hmatch, Option.any_some, hexact, if_neg Bool.false_ne_true, if_neg hlast]
  cases hm : ServeMux.matchMethodAndPath mux method (u.escapedPath ++ ['/']) with
  | none => rfl
  | some m => rw [Option.any_some, hslash m hm]; rfl

theorem not_takes_get {η : Type} {r : ServeMux.Route η} (hr : r.method = some "GET".toList) :
    ¬ r.takes "POST".toList := by
  rintro (ht | ⟨ht, -⟩ | ht)
  · rw [hr] at ht
    exact absurd (Option.some.inj ht) (by decide)
  · exact absurd ht (by decide)
  · rw [hr] at ht
    cases ht

theorem actionOf_inj {b b' : Bool} (h : actionOf b = actionOf b') : b = b' := by
  cases b <;> cases b' <;> first | rfl | exact absurd h (by decide)

theorem toggleSegments_inj {id id' mac mac' action action' : Str} (h : toggleSegments id mac action =
    ["api".toList, "routers".toList, id', "devices".toList, mac', action']) :
    id = id' ∧ mac = mac' ∧ action = action' := by
  simpa [toggleSegments, devicesSegments] using h

section Toggle

variable {id mac : Str} (hid : ∀ c ∈ id, c.toNat < 256) (hmac : ∀ c ∈ mac, c.toNat < 256)
include hid hmac

/-- Only an id and an address that are addressable reach one of the two handlers, and as they are. -/
theorem toggle_reached {block block' : Bool} {u : Url} {values : List Str}
    (hu : Url.parse (browserPath (togglePath id mac (actionOf block))) = some u)
    (hfound : findHandler authMux "POST".toList u =
      .handler (if block' then .apiBlock else .apiUnblock) values) :
    Addressable id ∧ Addressable mac ∧ values = [id, mac] ∧ block' = block := by
  obtain ⟨_, id', mac', rfl, hss, hid', hmac'⟩ := found_toggle hfound
  have hclean : ServeMux.cleanPath u.escapedPath = u.escapedPath :=
    (ServeMux.findHandler_sound hfound).1
  have haction : Plain (actionOf block) := plain_word _ (by cases block <;> simp [actionOf])
  have hwords : ∀ w ∈ devicesSegments id ++ [mac], ∀ c ∈ w, c.toNat < 256 := by
    intro w hw
    simp only [devicesSegments, List.cons_append, List.nil_append, List.mem_cons, List.not_mem_nil,
      or_false] at hw
    rcases hw with rfl | rfl | rfl | rfl | rfl
    · exact (plain_word _ (by simp)).bytes
    · exact (plain_word _ (by simp)).bytes
    · exact hid
    · exact (plain_word _ (by simp)).bytes
    · exact hmac
  rw [togglePath_eq, toggleSegments, show [mac, actionOf block] = [mac] ++ [actionOf block] from rfl,
    ← List.append_assoc] at hu
  obtain ⟨hplain, hsegments⟩ := segments_left hwords haction hu hclean (by rw [hss]; rfl)
  rw [hss, List.append_assoc] at hsegments
  obtain ⟨rfl, rfl, hblock⟩ := toggleSegments_inj hsegments.symm
  have hpid := hplain id (by simp [devicesSegments])
  have hpmac := hplain mac (by simp [devicesSegments])
  exact ⟨⟨hpid.nonempty, hpid.notDot, hpid.notDots, hid'⟩,
    ⟨hpmac.nonempty, hpmac.notDot, hpmac.notDots, hmac'⟩, rfl, actionOf_inj hblock.symm⟩

theorem toggle_found (haid : Addressable id) (hamac : Addressable mac) (block : Bool) :
    ∃ u, Url.parse (browserPath (togglePath id mac (actionOf block))) = some u ∧
      findHandler mux "POST".toList u = .handler .app [] ∧
      findHandler authMux "POST".toList u =
        .handler (if block then .apiBlock else .apiUnblock) [id, mac] := by
  have hplain : ∀ v ∈ toggleSegments id mac (actionOf block), Plain v := by
    intro v hv
    simp only [toggleSegments, devicesSegments, List.cons_append, List.nil_append, List.mem_cons,
      List.not_mem_nil, or_false] at hv
    rcases hv with rfl | rfl | rfl | rfl | rfl | rfl
    · exact plain_word _ (by simp)
    · exact plain_word _ (by simp)
    · exact ⟨hid, haid.nonempty, haid.notDot, haid.notDots⟩
    · exact plain_word _ (by simp)
    · exact ⟨hmac, hamac.nonempty, hamac.notDot, hamac.notDots⟩
    · exact plain_word _ (by cases block <;> simp [actionOf])
  obtain ⟨u, hu, hescaped, hclean, hsegments⟩ := browser_plain (by simp [toggleSegments]) hplain
  rw [← togglePath_eq] at hu
  have happ := app_found (List.forall_mem_cons.mp hplain).2 "POST".toList hescaped
  have hmatch : ServeMux.matchMethodAndPath authMux "POST".toList u.escapedPath = some
      (⟨some "POST".toList, devicesPattern [.wildcard, .literal (actionOf block)],
        if block then .apiBlock else .apiUnblock⟩, [id, mac]) := by
    rw [hescaped]
    refine ServeMux.matchMethodAndPath_of_only (by cases block <;> simp [authMux, actionOf]) (Or.inl rfl)
      ?_ fun q hq ws htakes hm => ?_
    · rw [hsegments]
      exact .literal _ (.literal _ (.wildcard haid.notSlash (.literal _ (.wildcard hamac.notSlash
        (.literal _ .nil)))))
    · rw [hsegments] at hm
      simp only [authMux, List.mem_cons, List.not_mem_nil, or_false] at hq
      rcases hq with rfl | rfl | rfl | rfl | rfl
      · exact absurd htakes (not_takes_get rfl)
      · exact absurd htakes (not_takes_get rfl)
      · exact absurd htakes (not_takes_get rfl)
      · obtain ⟨id', mac', hss, rfl, _⟩ := matches_toggle hm
        obtain ⟨rfl, rfl, haction⟩ := toggleSegments_inj hss
        obtain rfl : block = true := actionOf_inj haction
        exact ⟨rfl, rfl⟩
      · obtain ⟨id', mac', hss, rfl, _⟩ := matches_toggle hm
        obtain ⟨rfl, rfl, haction⟩ := toggleSegments_inj hss
        obtain rfl : block = false := actionOf_inj haction
        exact ⟨rfl, rfl⟩
  refine ⟨u, hu, happ, ServeMux.findHandler_of_match (hescaped ▸ hclean) hmatch
    (ServeMux.slashRedirect_of_exact hmatch ?_)⟩
  unfold ServeMux.exactMatch
  exact if_pos (by simp [devicesPattern])

end Toggle

/-! ## What a click does -/

def Outcome.command : Outcome → Option Command
  | .toggled _ cmd => cmd
  | _ => none

def commandOf : Except Fault Outcome → Option Command
  | .ok o => o.command
  | .error _ => none

theorem addressable_of_mac {mac : Str} (h : macRegexp (mac.map tolower) = true) : Addressable mac := by
  have hlen : mac.length = 17 := by
    have := groups_length h
    rwa [List.length_map] at this
  constructor <;>
    · rintro rfl
      exact absurd hlen (by decide)

section Click

variable {c : Crypto} {a : Auth} {broker : Command → Option Str}

theorem doBlockUnblock_command {id mac : Str} (hid : id ≠ []) (hmac : macRegexp (mac.map tolower) = true)
    (stamp : Str) (block : Bool) :
    (doBlockUnblock broker stamp id mac block).2 = some (commandFor stamp id mac block) := by
  have hpublish : ∀ action : Str, action ≠ [] → (publishCmd broker stamp id action (mac.map tolower)).2 =
      some ⟨"netparent/".toList ++ id ++ "/cmd/".toList ++ action, .obj [("mac".toList,
        .str (mac.map tolower)), ("req_id".toList, .str ("web-".toList ++ stamp))]⟩ := by
    intro action haction
    unfold publishCmd
    rw [if_neg (not_or.mpr ⟨hid, haction⟩)]
  unfold doBlockUnblock
  dsimp only
  rw [if_neg (by rw [hmac]; exact Bool.true_eq_false.mp)]
  cases block with
  | true =>
    rw [if_pos rfl]
    split <;> exact hpublish "block".toList (by decide)
  | false =>
    rw [if_neg Bool.false_ne_true]
    split <;> exact hpublish "unblock".toList (by decide)

/-- What the app answers someone who is logged in, on a path of the API. -/
theorem handleHttp_app {now : Int} {stamp : Str} {ranging : Ranging} {s : Store} {r : Incoming} {u : Url}
    (hu : Url.parse r.target = some u) (happ : findHandler mux r.method u = .handler .app [])
    (huser : a.currentUser c now ⟨[], r.cookie⟩ ≠ []) :
    handleHttp c a broker now stamp ranging s r =
      handleApp c a broker now stamp ranging s r.method u r.cookie := by
  have hnext : a.requireLogin c now ⟨u.path, r.cookie⟩ = .next := Auth.requireLogin_eq_next.mpr huser
  unfold handleHttp
  rw [hu]
  dsimp only
  rw [happ]
  dsimp only
  rw [hnext]

/-- **A click.** The request of a button makes the server send a command exactly when its user is logged
    in, the id is addressable, and the address is spelled like a MAC; and then this one. -/
theorem toggle_commands (c : Crypto) (a : Auth) (broker : Command → Option Str) {id mac : Str}
    (hid : ∀ ch ∈ id, ch.toNat < 256) (hmac : ∀ ch ∈ mac, ch.toNat < 256) (now : Int) (stamp : Str)
    (ranging : Ranging) (s : Store) (block : Bool) (cookie : Option Str) :
    commandOf (handleHttp c a broker now stamp ranging s (toggleRequest id mac block cookie)) =
      if a.currentUser c now ⟨[], cookie⟩ ≠ [] ∧ Addressable id ∧ macRegexp (mac.map tolower) = true then
        some (commandFor stamp id mac block) else none := by
  by_cases hall : a.currentUser c now ⟨[], cookie⟩ ≠ [] ∧ Addressable id ∧
      macRegexp (mac.map tolower) = true
  · obtain ⟨huser, haid, hspelled⟩ := hall
    obtain ⟨u, hu, happ, hfound⟩ := toggle_found hid hmac haid (addressable_of_mac hspelled) block
    rw [if_pos ⟨huser, haid, hspelled⟩, handleHttp_app (r := toggleRequest id mac block cookie) hu happ huser]
    have hcommand : (doBlockUnblock broker stamp id mac block).2 = _ :=
      doBlockUnblock_command haid.nonempty hspelled stamp block
    unfold handleApp
    dsimp only [toggleRequest]
    rw [hfound]
    cases block <;> exact hcommand
  · rw [if_neg hall]
    by_contra hne
    obtain ⟨cmd, hcmd⟩ := Option.ne_none_iff_exists'.mp hne
    cases ho : handleHttp c a broker now stamp ranging s (toggleRequest id mac block cookie) with
    | error e => rw [ho] at hcmd; cases hcmd
    | ok o =>
      rw [ho] at hcmd
      cases o with
      | answer ans => cases hcmd
      | listed router devices => cases hcmd
      | toggled res cmd' =>
        obtain ⟨u, hu, _, huser, happ⟩ := handleHttp_private ho rfl
        obtain ⟨block', values, hfound, hdo⟩ := handleApp_toggled happ
        obtain ⟨haid, _, rfl, rfl⟩ := toggle_reached hid hmac hu hfound
        exact hall ⟨huser, haid, (doBlockUnblock_some ((congrArg Prod.snd hdo).trans hcmd)).1⟩

/-- The route of `loadDevices` goes before the one of the dashboard. -/
theorem devices_matched {id : Str} (hid : id ≠ ['/']) :
    ServeMux.matchPath (devicesSegments id) (ServeMux.root authMux (some "GET".toList)) [] =
      some (⟨some "GET".toList, devicesPattern [], .apiDevices⟩, [id]) := by
  -- behind `api/routers` there are the listing of a router and the end of the path
  have hnode : ((ServeMux.root authMux (some "GET".toList)).child (.literal "api".toList)).child
      (.literal "routers".toList) =
      [([], ⟨some "GET".toList, [.literal "api".toList, .literal "routers".toList], .apiRouters⟩),
        ([.wildcard, .literal "devices".toList],
          ⟨some "GET".toList, devicesPattern [], .apiDevices⟩)] := rfl
  have hid' : ServeMux.matchPath [id, "devices".toList]
      (((ServeMux.root authMux (some "GET".toList)).child (.literal "api".toList)).child
        (.literal "routers".toList)) [] =
      some (⟨some "GET".toList, devicesPattern [], .apiDevices⟩, [id]) := by
    rw [hnode, ServeMux.matchPath, if_neg hid]
    rfl
  rw [devicesSegments, ServeMux.matchPath, ServeMux.matchPath, hid']

/-- The listing is asked for under the id, when it is addressable, and never under another. -/
theorem devices_listed (c : Crypto) (a : Auth) (broker : Command → Option Str) {id : Str}
    (hid : ∀ ch ∈ id, ch.toNat < 256) (now : Int) (stamp : Str) (ranging : Ranging) (s : Store)
    (cookie : Option Str) (router : Router) (devices : List Device) :
    handleHttp c a broker now stamp ranging s (devicesRequest id cookie) = .ok (.listed router devices) ↔
      a.currentUser c now ⟨[], cookie⟩ ≠ [] ∧ Addressable id ∧ s.router id = .ok (some router) ∧
        devices = ranging.devices router.devices := by
  have hwords : ∀ w ∈ ["api".toList, "routers".toList, id], ∀ ch ∈ w, ch.toNat < 256 := by
    intro w hw
    simp only [List.mem_cons, List.not_mem_nil, or_false] at hw
    rcases hw with rfl | rfl | rfl
    · exact (plain_word _ (by simp)).bytes
    · exact (plain_word _ (by simp)).bytes
    · exact hid
  have hlast : Plain "devices".toList := plain_word _ (by simp)
  have hsplit : devicesSegments id = ["api".toList, "routers".toList, id] ++ ["devices".toList] := rfl
  constructor
  · intro h
    obtain ⟨u, hu, _, huser, happ⟩ := handleHttp_private h rfl
    obtain ⟨values, hfound⟩ := handleApp_listed happ
    obtain ⟨_, id', rfl, hss, hid'⟩ := found_devices hfound
    have hclean : ServeMux.cleanPath u.escapedPath = u.escapedPath :=
      (ServeMux.findHandler_sound hfound).1
    dsimp only [devicesRequest] at hu
    rw [devicesPath_eq, hsplit] at hu
    obtain ⟨hplain, hsegments⟩ := segments_left hwords hlast hu hclean (by rw [hss]; rfl)
    rw [hss] at hsegments
    obtain rfl : id' = id := by simpa using hsegments
    have hpid := hplain id' (by simp)
    refine ⟨huser, ⟨hpid.nonempty, hpid.notDot, hpid.notDots, hid'⟩, ?_⟩
    unfold handleApp at happ
    rw [hfound] at happ
    dsimp only [handleAPIDevices, List.getD_cons_zero] at happ
    split at happ
    · cases happ
    · cases happ
    · next hrouter =>
      cases happ
      exact ⟨hrouter, rfl⟩
  · rintro ⟨huser, haid, hrouter, rfl⟩
    have hplain : ∀ v ∈ devicesSegments id, Plain v := by
      intro v hv
      simp only [devicesSegments, List.mem_cons, List.not_mem_nil, or_false] at hv
      rcases hv with rfl | rfl | rfl | rfl
      · exact plain_word _ (by simp)
      · exact plain_word _ (by simp)
      · exact ⟨hid, haid.nonempty, haid.notDot, haid.notDots⟩
      · exact hlast
    obtain ⟨u, hu, hescaped, hclean, hsegments⟩ := browser_plain (by simp [devicesSegments]) hplain
    rw [← devicesPath_eq] at hu
    have happ := app_found (List.forall_mem_cons.mp hplain).2 "GET".toList hescaped
    have hmatch : ServeMux.matchMethodAndPath authMux "GET".toList u.escapedPath =
        some (⟨some "GET".toList, devicesPattern [], .apiDevices⟩, [id]) := by
      unfold ServeMux.matchMethodAndPath
      rw [hescaped, hsegments, devices_matched haid.notSlash]
    have hfound : findHandler authMux "GET".toList u = .handler .apiDevices [id] := by
      refine ServeMux.findHandler_of_match (hescaped ▸ hclean) hmatch
        (ServeMux.slashRedirect_of_exact hmatch ?_)
      unfold ServeMux.exactMatch
      exact if_pos (by simp [devicesPattern])
    rw [handleHttp_app (r := devicesRequest id cookie) hu happ huser]
    unfold handleApp
    dsimp only [devicesRequest]
    rw [hfound]
    have hvalue : [id].getD 0 [] = id := rfl
    dsimp only [handleAPIDevices]
    rw [hvalue, hrouter]

end Click

/-! ## Two clicks -/

def spacedId : Str := "living room/1".toList

theorem spacedId_bytes : ∀ ch ∈ spacedId, ch.toNat < 256 := bytes_of_all (by decide +kernel)

/-- A click in the session of `plainRun`, on a router whose id has to be encoded. -/
theorem toggle_commands_spaced : ∃ ranging : Ranging,
    commandOf (handleHttp plainCrypto plainAuth (fun _ => none) (3600 * 10 ^ 9) ['7'] ranging ∅
      (toggleRequest spacedId "AA:BB:CC:DD:EE:FF".toList true plainPage.cookie)) =
        some (commandFor ['7'] spacedId "AA:BB:CC:DD:EE:FF".toList true) := by
  obtain ⟨ranging⟩ := exists_ranging
  have hmac : ∀ ch ∈ "AA:BB:CC:DD:EE:FF".toList, ch.toNat < 256 := bytes_of_all (by decide +kernel)
  refine ⟨ranging, ?_⟩
  have hclick := toggle_commands plainCrypto plainAuth (fun _ => none) spacedId_bytes hmac
    (3600 * 10 ^ 9) ['7'] ranging ∅ true plainPage.cookie
  rw [hclick, if_pos ⟨by decide +kernel, by decide +kernel, by decide +kernel⟩]

def spacedRouter : Router := { bothRouter with id := spacedId }

/-- The same router, selected, beside another one. -/
theorem devices_listed_spaced : ∃ ranging : Ranging,
    handleHttp plainCrypto plainAuth (fun _ => none) (3600 * 10 ^ 9) ['7'] ranging
      (Finmap.insert spacedId spacedRouter (storeOf tvRouter)) (devicesRequest spacedId plainPage.cookie) =
        .ok (.listed spacedRouter [nasShown, tvShown true]) := by
  obtain ⟨ranging, hranging⟩ := exists_ranging_listing both_list
  refine ⟨ranging, (devices_listed plainCrypto plainAuth (fun _ => none) spacedId_bytes (3600 * 10 ^ 9)
    ['7'] ranging _ plainPage.cookie spacedRouter [nasShown, tvShown true]).mpr
    ⟨by decide +kernel, by decide +kernel, ?_, hranging.symm⟩⟩
  rw [Store.router, Finmap.lookup_insert]
  exact if_neg (show ¬ HasNil bothRouter.devices by decide)

end Netparent.Web
