/-
  app.js: the HTML of the dashboard.

  A template literal is its fixed texts with the interpolated values between them, so what is
  assigned to `innerHTML` is a list of pieces: a fixed text, a string field behind `escapeHTML`, or
  a formatted time. `rendering_safe`: whatever the fields are, an escaped piece has none of the
  characters that mean something to HTML and decodes to the field, every other piece is one of the
  texts of the source or a time, and each field stands in text or in a double-quoted attribute value
  and leaves it as it was. The browser's formatting of a time is a parameter, `clock`.

  Here a `Char` is a character of a JavaScript string.
-/
import Netparent.Web.Store

namespace Netparent.Web

/-! ## escapeHTML -/

/-- The object the replacement function looks a character up in. -/
def entities : List (Char × Str) :=
  [('&', "&amp;".toList), ('<', "&lt;".toList), ('>', "&gt;".toList), ('"', "&quot;".toList),
    ('\'', "&#39;".toList)]

def escapeChar (c : Char) : Str := (entities.lookup c).getD [c]

def escapeHTML (s : Str) : Str := s.flatMap escapeChar

/-- The entity at the front of a text. -/
def entityAt (s : Str) : Option (Char × Str) := entities.find? fun e => e.2.isPrefixOf s

/-- A text with these entities decoded; `skip` characters belong to one already decoded. -/
def decodeLoop : (skip : Nat) → Str → Str
  | _, [] => []
  | skip + 1, _ :: cs => decodeLoop skip cs
  | 0, c :: cs => match entityAt (c :: cs) with
      | some e => e.1 :: decodeLoop (e.2.length - 1) cs
      | none => c :: decodeLoop 0 cs

def decodeEntities (s : Str) : Str := decodeLoop 0 s

/-! ## What it leaves -/

/-- A character is replaced by its entity, or kept. -/
theorem escapeChar_cases (c : Char) : (∃ e ∈ entities, e.1 = c ∧ escapeChar c = e.2) ∨
    (c ∉ entities.map Prod.fst ∧ escapeChar c = [c]) := by
  unfold escapeChar
  cases hl : entities.lookup c with
  | some t =>
    obtain ⟨l₁, l₂, hl', -⟩ := List.lookup_eq_some_iff.mp hl
    exact Or.inl ⟨(c, t), by rw [hl']; simp, rfl, rfl⟩
  | none =>
    refine Or.inr ⟨fun hmem => ?_, rfl⟩
    obtain ⟨e, he, rfl⟩ := List.mem_map.mp hmem
    simpa using List.lookup_eq_none_iff.mp hl e he

/-- The characters that mean something to HTML, `&` apart. -/
def markup : List Char := ['<', '>', '"', '\'']

/-- An entity is `&` and then characters that mean nothing. -/
theorem entity_text {e : Char × Str} (he : e ∈ entities) : ∃ t, e.2 = '&' :: t ∧ '&' ∉ t ∧
    ∀ c ∈ t, c ∉ markup := by
  simp only [entities, List.mem_cons, List.not_mem_nil, or_false] at he
  rcases he with rfl | rfl | rfl | rfl | rfl
  · exact ⟨['a', 'm', 'p', ';'], rfl, by simp, by simp [markup]⟩
  · exact ⟨['l', 't', ';'], rfl, by simp, by simp [markup]⟩
  · exact ⟨['g', 't', ';'], rfl, by simp, by simp [markup]⟩
  · exact ⟨['q', 'u', 'o', 't', ';'], rfl, by simp, by simp [markup]⟩
  · exact ⟨['#', '3', '9', ';'], rfl, by simp, by simp [markup]⟩

/-- No entity is the beginning of another. -/
theorem entityAt_entity {e : Char × Str} (he : e ∈ entities) (rest : Str) :
    entityAt (e.2 ++ rest) = some e := by
  simp only [entities, List.mem_cons, List.not_mem_nil, or_false] at he
  rcases he with rfl | rfl | rfl | rfl | rfl <;> rfl

theorem entityAt_other {c : Char} (hc : c ≠ '&') (cs : Str) : entityAt (c :: cs) = none := by
  refine List.find?_eq_none.mpr fun e he => ?_
  obtain ⟨t, ht, -⟩ := entity_text he
  rw [ht]
  simp [List.isPrefixOf, Ne.symm hc]

theorem decodeLoop_skip (k : Nat) (s : Str) : decodeLoop k s = decodeLoop 0 (s.drop k) := by
  induction k generalizing s with
  | zero => rfl
  | succ k ih =>
    cases s with
    | nil => rfl
    | cons c cs => rw [decodeLoop, ih, List.drop_succ_cons]

theorem decodeLoop_escapeChar (c : Char) (rest : Str) :
    decodeLoop 0 (escapeChar c ++ rest) = c :: decodeLoop 0 rest := by
  rcases escapeChar_cases c with ⟨e, he, rfl, hesc⟩ | ⟨hc, hesc⟩
  · have hat := entityAt_entity he rest
    obtain ⟨t, ht, -⟩ := entity_text he
    rw [ht, List.cons_append] at hat
    rw [hesc, ht, List.cons_append, decodeLoop, hat]
    dsimp only
    rw [ht, List.length_cons, Nat.add_sub_cancel, decodeLoop_skip, List.drop_left]
  · have hne : c ≠ '&' := fun h => hc (h ▸ List.mem_cons_self)
    rw [hesc, List.singleton_append, decodeLoop, entityAt_other hne]

/-- Decoding an escaped text gives it back. -/
theorem decode_escape (s : Str) : decodeEntities (escapeHTML s) = s := by
  unfold decodeEntities
  induction s with
  | nil => rfl
  | cons c cs ih =>
    have hcons : escapeHTML (c :: cs) = escapeChar c ++ escapeHTML cs := rfl
    rw [hcons, decodeLoop_escapeChar, ih]

example : escapeHTML "<b a='&amp;'>".toList = "&lt;b a=&#39;&amp;amp;&#39;&gt;".toList := by decide

theorem escapeHTML_injective : Function.Injective escapeHTML := fun a b h => by
  rw [← decode_escape a, h, decode_escape]

/-- A text without markup, in which `&` begins one of the five entities. -/
structure Clean (t : Str) : Prop where
  plain : ∀ c ∈ t, c ∉ markup
  entity : ∀ pre post, t = pre ++ '&' :: post → ∃ e ∈ entities, e.2 <+: '&' :: post

theorem escapeChar_plain (c : Char) : ∀ d ∈ escapeChar c, d ∉ markup := by
  rcases escapeChar_cases c with ⟨e, he, -, hesc⟩ | ⟨hc, hesc⟩
  · obtain ⟨t, ht, -, hplain⟩ := entity_text he
    rw [hesc, ht]
    exact List.forall_mem_cons.mpr ⟨by decide, hplain⟩
  · rw [hesc]
    intro d hd
    obtain rfl := List.mem_singleton.mp hd
    exact fun hm => hc (List.mem_cons_of_mem _ (by simpa [entities, markup] using hm))

/-- In the replacement of a character, only the first can be `&`. -/
theorem escapeChar_amp {c : Char} {pre post : Str} (h : escapeChar c = pre ++ '&' :: post) :
    ∃ e ∈ entities, e.2 = '&' :: post := by
  rcases escapeChar_cases c with ⟨e, he, -, hesc⟩ | ⟨hc, hesc⟩
  · obtain ⟨t, ht, hamp, -⟩ := entity_text he
    rw [hesc, ht] at h
    cases pre with
    | nil => exact ⟨e, he, ht.trans h⟩
    | cons d pre =>
      have htail := (List.cons.inj h).2
      exact absurd (htail ▸ List.mem_append_right pre List.mem_cons_self) hamp
  · rw [hesc] at h
    have hmem : '&' ∈ [c] := h ▸ List.mem_append_right pre List.mem_cons_self
    exact absurd (List.mem_singleton.mp hmem ▸ List.mem_cons_self) hc

theorem escape_clean (s : Str) : Clean (escapeHTML s) := by
  induction s with
  | nil => exact ⟨by simp [escapeHTML], fun pre post h => by simp [escapeHTML] at h⟩
  | cons c cs ih =>
    have hcons : escapeHTML (c :: cs) = escapeChar c ++ escapeHTML cs := rfl
    refine ⟨fun d hd => ?_, fun pre post hsplit => ?_⟩
    · rw [hcons] at hd
      exact (List.mem_append.mp hd).elim (escapeChar_plain c d) (ih.plain d)
    · rw [hcons] at hsplit
      rcases List.append_eq_append_iff.mp hsplit with ⟨a, -, ha⟩ | ⟨a, ha, hpost⟩
      · exact ih.entity a post ha
      · cases a with
        | nil => exact ih.entity [] post hpost.symm
        | cons d a =>
          -- the `&` is in what replaces the first character
          obtain ⟨rfl, rfl⟩ := List.cons.inj hpost
          obtain ⟨e, he, hent⟩ := escapeChar_amp ha
          exact ⟨e, he, escapeHTML cs, by rw [hent]; rfl⟩

/-! ## Pieces -/

/-- A piece of a template literal: a text of the source, a string field behind `escapeHTML`
    (`escapeAttr` is the same function), or a time behind `formatTime`. -/
inductive Piece where
  | html (text : Str)
  | field (value : Str)
  | time (epoch : Int)

/-- A template literal: its texts, with the interpolated values between them. -/
def template : (texts : List Str) → (values : List (List Piece)) → List Piece
  | [], _ => []
  | t :: _, [] => [.html t]
  | t :: ts, v :: vs => .html t :: (v ++ template ts vs)

/-- `a || b` on strings. -/
def orElse (a b : Str) : Str := if a = [] then b else a

/-- `c ? a : b` on words of the source. -/
def word (c : Bool) (a b : String) : List Piece := [.html (if c then a.toList else b.toList)]

def routerTexts : List Str :=
  ["\n    <div class=\"router-card ".toList,
    "\" data-id=\"".toList,
    "\">\n      <div>\n        <strong>".toList,
    "</strong>\n        <div class=\"muted\" style=\"font-size:0.8rem;\">last update: ".toList,
    "</div>\n      </div>\n      <span class=\"status\">\n        <span class=\"dot ".toList,
    "\"></span>\n        ".toList,
    "\n      </span>\n    </div>\n  ".toList]

/-- The card of a router; `selected` is `state.selectedRouter`. -/
def routerCard (selected : Option Str) (r : Router) : List Piece :=
  template routerTexts
    [word (selected == some r.id) "selected" "",
      [.field r.id],
      [.field r.id],
      [.time r.lastUpdate],
      word r.online "online" "offline",
      word r.online "online" "offline"]

def noRouters : Str :=
  "<p class=\"muted\">No routers have connected yet. Once a netparent client connects to the broker it will appear here.</p>".toList

/-- What `renderRouters` assigns to `innerHTML`. -/
def renderRouters (selected : Option Str) (routers : List Router) : List Piece :=
  if routers.isEmpty then [.html noRouters] else routers.flatMap (routerCard selected)

def unblockTexts : List Str :=
  ["<button class=\"btn-unblock\" data-action=\"unblock\" data-mac=\"".toList,
    "\">Enable</button>".toList]

def blockTexts : List Str :=
  ["<button class=\"btn-block\"   data-action=\"block\"   data-mac=\"".toList,
    "\">Disable</button>".toList]

def deviceTexts : List Str :=
  ["\n    <tr>\n      <td>".toList,
    "</td>\n      <td class=\"".toList,
    "\">".toList,
    "</td>\n      <td><code>".toList,
    "</code></td>\n      <td>".toList,
    "</td>\n      <td class=\"muted\">".toList,
    "</td>\n      <td>\n        <span class=\"badge ".toList,
    "\">\n          ".toList,
    "\n        </span>\n      </td>\n      <td>\n        ".toList,
    "\n      </td>\n    </tr>\n  ".toList]

def deviceRow (d : Device) : List Piece :=
  template deviceTexts
    [[.field (orElse d.hostname "—".toList)],
      word (d.vendor != []) "" "muted",
      [.field (orElse d.vendor "looking up…".toList)],
      [.field d.mac],
      [.field (orElse d.ip "—".toList)],
      [.time d.lastSeen],
      word d.blocked "disabled" "enabled",
      word d.blocked "disabled" "enabled",
      template (if d.blocked then unblockTexts else blockTexts) [[.field d.mac]]]

def noDevices : Str :=
  "<tr><td colspan=\"7\" class=\"muted\">No devices reported yet.</td></tr>".toList

/-- What `renderDevices` assigns to `innerHTML`. -/
def renderDevices (devices : List Device) : List Piece :=
  if devices.isEmpty then [.html noDevices] else devices.flatMap deviceRow

/-- `formatTime`; `clock` is the browser's time or date and time of an epoch. -/
def formatTime (clock : Int → Str) (epoch : Int) : Str := if epoch = 0 then "—".toList else clock epoch

/-- The text of a piece. -/
def Piece.text (clock : Int → Str) : Piece → Str
  | .html text => text
  | .field value => escapeHTML value
  | .time epoch => formatTime clock epoch

/-- The HTML: the pieces one after the other. -/
def htmlOf (clock : Int → Str) (ps : List Piece) : Str := ps.flatMap (Piece.text clock)

/-! ## Where the pieces stand -/

/-- Where a reader of the HTML is: in text, in a tag, or in an attribute value in quotes. -/
inductive Place where
  | text
  | tag
  | quoted
  | single
  deriving DecidableEq

/-- The next place. -/
def Place.next : Place → Char → Place
  | .text, c => if c = '<' then .tag else .text
  | .tag, c => if c = '>' then .text else if c = '"' then .quoted else if c = '\'' then .single else .tag
  | .quoted, c => if c = '"' then .tag else .quoted
  | .single, c => if c = '\'' then .tag else .single

def Place.after (p : Place) (s : Str) : Place := s.foldl Place.next p

/-- Reads the pieces, fields and times left out; `none` if a field is neither in text nor in a
    double-quoted value, or a time not in text. -/
def walk : Place → List Piece → Option Place
  | p, [] => some p
  | p, .html t :: ps => walk (p.after t) ps
  | p, .field _ :: ps => if p = .text ∨ p = .quoted then walk p ps else none
  | p, .time _ :: ps => if p = .text then walk p ps else none

set_option maxRecDepth 8000 in
theorem walk_routerCard (selected : Option Str) (r : Router) :
    walk .text (routerCard selected r) = some .text := by
  unfold routerCard word
  cases r.online <;> cases (selected == some r.id) <;> rfl

set_option maxRecDepth 8000 in
theorem walk_deviceRow (d : Device) : walk .text (deviceRow d) = some .text := by
  unfold deviceRow word
  cases d.blocked <;> cases (d.vendor != []) <;> rfl

theorem walk_append (p : Place) (xs ys : List Piece) :
    walk p (xs ++ ys) = (walk p xs).bind fun q => walk q ys := by
  induction xs generalizing p with
  | nil => rfl
  | cons x xs ih =>
    cases x with
    | html t =>
      rw [List.cons_append, walk, walk, ih]
    | field v =>
      rw [List.cons_append, walk, walk]
      split
      · exact ih p
      · rfl
    | time e =>
      rw [List.cons_append, walk, walk]
      split
      · exact ih p
      · rfl

/-- Rows that each begin and end in text. -/
theorem walk_flatMap {α : Type} {row : α → List Piece} (h : ∀ a, walk .text (row a) = some .text)
    (rows : List α) : walk .text (rows.flatMap row) = some .text := by
  induction rows with
  | nil => rfl
  | cons a rows ih => rw [List.flatMap_cons, walk_append, h a, Option.bind_some, ih]

theorem after_noRouters : Place.after .text noRouters = .text := by decide +kernel

theorem after_noDevices : Place.after .text noDevices = .text := by decide +kernel

theorem walk_renderRouters (selected : Option Str) (routers : List Router) :
    walk .text (renderRouters selected routers) = some .text := by
  unfold renderRouters
  split
  · rw [walk, after_noRouters, walk]
  · exact walk_flatMap (walk_routerCard selected) routers

theorem walk_renderDevices (devices : List Device) :
    walk .text (renderDevices devices) = some .text := by
  unfold renderDevices
  split
  · rw [walk, after_noDevices, walk]
  · exact walk_flatMap walk_deviceRow devices

theorem Place.after_append (p : Place) (s t : Str) : p.after (s ++ t) = (p.after s).after t :=
  List.foldl_append

theorem Place.after_of_forall {p : Place} {s : Str} (h : ∀ c ∈ s, p.next c = p) : p.after s = p := by
  induction s with
  | nil => rfl
  | cons c cs ih =>
    obtain ⟨hc, hcs⟩ := List.forall_mem_cons.mp h
    change (p.next c).after cs = p
    rw [hc, ih hcs]

/-- An escaped field leaves the place where it stands. -/
theorem Place.after_escape {p : Place} (hp : p = .text ∨ p = .quoted) (v : Str) :
    p.after (escapeHTML v) = p := by
  refine Place.after_of_forall fun c hc => ?_
  have hplain := (escape_clean v).plain c hc
  have hne : c ≠ '<' ∧ c ≠ '"' := by
    constructor <;> (rintro rfl; exact hplain (by simp [markup]))
  rcases hp with rfl | rfl
  · exact if_neg hne.1
  · exact if_neg hne.2

variable {clock : Int → Str}

theorem formatTime_text (hclock : ∀ t, '<' ∉ clock t) (epoch : Int) :
    Place.after .text (formatTime clock epoch) = .text := by
  refine Place.after_of_forall fun c hc => if_neg ?_
  rintro rfl
  unfold formatTime at hc
  split at hc
  · exact absurd hc (by decide)
  · exact hclock epoch hc

/-- Every field stands in text or in a double-quoted value, and leaves it as it was. -/
def InPlace (clock : Int → Str) (p : Place) (ps : List Piece) : Prop :=
  ∀ pre v post, ps = pre ++ .field v :: post →
    (p.after (htmlOf clock pre) = .text ∨ p.after (htmlOf clock pre) = .quoted) ∧
      (p.after (htmlOf clock pre)).after (escapeHTML v) = p.after (htmlOf clock pre)

/-- The induction over the pieces: what is read with the fields is read without them. -/
theorem walk_inPlace (hclock : ∀ t, '<' ∉ clock t) {p q : Place} {ps : List Piece}
    (h : walk p ps = some q) : InPlace clock p ps := by
  induction ps generalizing p with
  | nil =>
    intro pre v post hps
    cases pre <;> cases hps
  | cons x ps ih =>
    -- a field further on: the first piece is read, and the rest starts where it ends
    have hlater : ∀ {p'}, p.after (x.text clock) = p' → InPlace clock p' ps → ∀ pre v post,
        ps = pre ++ .field v :: post →
          (p.after (htmlOf clock (x :: pre)) = .text ∨ p.after (htmlOf clock (x :: pre)) = .quoted) ∧
            (p.after (htmlOf clock (x :: pre))).after (escapeHTML v) =
              p.after (htmlOf clock (x :: pre)) := by
      rintro p' rfl hrest pre v post hps
      have hcons : htmlOf clock (x :: pre) = x.text clock ++ htmlOf clock pre := rfl
      rw [hcons, Place.after_append]
      exact hrest pre v post hps
    intro pre v post hps
    cases x with
    | html t =>
      rw [walk] at h
      cases pre with
      | nil => cases hps
      | cons y pre =>
        obtain ⟨rfl, htail⟩ := List.cons.inj hps
        exact hlater rfl (ih h) pre v post htail
    | field u =>
      rw [walk] at h
      split at h
      · next hp =>
        cases pre with
        | nil => exact ⟨hp, Place.after_escape hp v⟩
        | cons y pre =>
          obtain ⟨rfl, htail⟩ := List.cons.inj hps
          exact hlater (Place.after_escape hp u) (ih h) pre v post htail
      · cases h
    | time e =>
      rw [walk] at h
      split at h
      · next hp =>
        subst hp
        cases pre with
        | nil => cases hps
        | cons y pre =>
          obtain ⟨rfl, htail⟩ := List.cons.inj hps
          exact hlater (formatTime_text hclock e) (ih h) pre v post htail
      · cases h

/-! ## The texts of the source -/

/-- The words of the conditional expressions. -/
def words : List Str :=
  ["selected".toList, "".toList, "online".toList, "offline".toList, "muted".toList,
    "disabled".toList, "enabled".toList]

def fixedTexts : List Str :=
  [noRouters, noDevices] ++ routerTexts ++ deviceTexts ++ blockTexts ++ unblockTexts ++ words

theorem html_template {t : Str} {texts : List Str} {values : List (List Piece)}
    (h : .html t ∈ template texts values) : t ∈ texts ∨ ∃ v ∈ values, .html t ∈ v := by
  induction texts generalizing values with
  | nil => simp [template] at h
  | cons u texts ih =>
    cases values with
    | nil =>
      obtain rfl := Piece.html.inj (List.mem_singleton.mp h)
      exact Or.inl List.mem_cons_self
    | cons v values =>
      rw [template, List.mem_cons, List.mem_append] at h
      rcases h with h | h | h
      · exact Or.inl (List.mem_cons.mpr (Or.inl (Piece.html.inj h)))
      · exact Or.inr ⟨v, List.mem_cons_self, h⟩
      · rcases ih h with ht | ⟨w, hw, ht⟩
        · exact Or.inl (List.mem_cons_of_mem _ ht)
        · exact Or.inr ⟨w, List.mem_cons_of_mem _ hw, ht⟩

theorem html_word {t : Str} {c : Bool} {a b : String} (h : .html t ∈ word c a b)
    (ha : a.toList ∈ words) (hb : b.toList ∈ words) : t ∈ words := by
  cases c with
  | false => exact Piece.html.inj (List.mem_singleton.mp h) ▸ hb
  | true => exact Piece.html.inj (List.mem_singleton.mp h) ▸ ha

theorem mem_fixedTexts {t : Str} : t ∈ fixedTexts ↔ t = noRouters ∨ t = noDevices ∨ t ∈ routerTexts ∨
    t ∈ deviceTexts ∨ t ∈ blockTexts ∨ t ∈ unblockTexts ∨ t ∈ words := by
  simp only [fixedTexts, List.mem_append, List.mem_cons, List.not_mem_nil, or_false, or_assoc]

theorem words_fixed {t : Str} (h : t ∈ words) : t ∈ fixedTexts :=
  mem_fixedTexts.mpr (.inr (.inr (.inr (.inr (.inr (.inr h))))))

theorem routerTexts_fixed {t : Str} (h : t ∈ routerTexts) : t ∈ fixedTexts :=
  mem_fixedTexts.mpr (.inr (.inr (.inl h)))

theorem deviceTexts_fixed {t : Str} (h : t ∈ deviceTexts) : t ∈ fixedTexts :=
  mem_fixedTexts.mpr (.inr (.inr (.inr (.inl h))))

theorem buttonTexts_fixed {t : Str} {blocked : Bool}
    (h : t ∈ if blocked then unblockTexts else blockTexts) : t ∈ fixedTexts := by
  split at h
  · exact mem_fixedTexts.mpr (.inr (.inr (.inr (.inr (.inr (.inl h))))))
  · exact mem_fixedTexts.mpr (.inr (.inr (.inr (.inr (.inl h)))))

theorem html_routerCard {selected : Option Str} {r : Router} {t : Str}
    (h : .html t ∈ routerCard selected r) : t ∈ fixedTexts := by
  rcases html_template h with ht | ⟨v, hv, ht⟩
  · exact routerTexts_fixed ht
  · simp only [List.mem_cons, List.not_mem_nil, or_false] at hv
    rcases hv with rfl | rfl | rfl | rfl | rfl | rfl
    · exact words_fixed (html_word ht (by decide) (by decide))
    · cases List.mem_singleton.mp ht
    · cases List.mem_singleton.mp ht
    · cases List.mem_singleton.mp ht
    · exact words_fixed (html_word ht (by decide) (by decide))
    · exact words_fixed (html_word ht (by decide) (by decide))

theorem html_deviceRow {d : Device} {t : Str} (h : .html t ∈ deviceRow d) : t ∈ fixedTexts := by
  rcases html_template h with ht | ⟨v, hv, ht⟩
  · exact deviceTexts_fixed ht
  · simp only [List.mem_cons, List.not_mem_nil, or_false] at hv
    rcases hv with rfl | rfl | rfl | rfl | rfl | rfl | rfl | rfl | rfl
    · cases List.mem_singleton.mp ht
    · exact words_fixed (html_word ht (by decide) (by decide))
    · cases List.mem_singleton.mp ht
    · cases List.mem_singleton.mp ht
    · cases List.mem_singleton.mp ht
    · cases List.mem_singleton.mp ht
    · exact words_fixed (html_word ht (by decide) (by decide))
    · exact words_fixed (html_word ht (by decide) (by decide))
    · -- the button
      rcases html_template ht with ht | ⟨v, hv, ht⟩
      · exact buttonTexts_fixed ht
      · rw [List.mem_singleton.mp hv] at ht
        cases List.mem_singleton.mp ht

/-- What is assigned to `innerHTML` for any fields. -/
structure SafeHTML (clock : Int → Str) (ps : List Piece) : Prop where
  /-- What is not a field or a time is a text of the source. -/
  fixed : ∀ t, .html t ∈ ps → t ∈ fixedTexts
  /-- An escaped field has no markup, no `&` but in an entity, and can be decoded. -/
  clean : ∀ v, .field v ∈ ps →
    Clean (Piece.text clock (.field v)) ∧ decodeEntities (Piece.text clock (.field v)) = v
  /-- No field opens or closes a tag or leaves its attribute, if no time does. -/
  inPlace : (∀ t, '<' ∉ clock t) → InPlace clock .text ps

/-- **No injection.** Whatever the routers and devices are called, the HTML built for them is safe,
    and different fields look different. -/
theorem rendering_safe (clock : Int → Str) (selected : Option Str) (routers : List Router)
    (devices : List Device) :
    SafeHTML clock (renderRouters selected routers) ∧ SafeHTML clock (renderDevices devices) ∧
      Function.Injective escapeHTML := by
  refine ⟨⟨fun t ht => ?_, fun v _ => ⟨escape_clean v, decode_escape v⟩,
      fun hclock => walk_inPlace hclock (walk_renderRouters selected routers)⟩,
    ⟨fun t ht => ?_, fun v _ => ⟨escape_clean v, decode_escape v⟩,
      fun hclock => walk_inPlace hclock (walk_renderDevices devices)⟩, escapeHTML_injective⟩
  · unfold renderRouters at ht
    split at ht
    · exact mem_fixedTexts.mpr (Or.inl (Piece.html.inj (List.mem_singleton.mp ht)))
    · obtain ⟨r, _, hr⟩ := List.mem_flatMap.mp ht
      exact html_routerCard hr
  · unfold renderDevices at ht
    split at ht
    · exact mem_fixedTexts.mpr (Or.inr (Or.inl (Piece.html.inj (List.mem_singleton.mp ht))))
    · obtain ⟨d, _, hd⟩ := List.mem_flatMap.mp ht
      exact html_deviceRow hd

end Netparent.Web
