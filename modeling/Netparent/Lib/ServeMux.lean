/-
  Routing by method and path, as net/http's `ServeMux` and the paths of net/url do it.

  A pattern is a method or none, and segments: literals, wildcards for one segment, and at the end a
  trailing slash that matches all the rest. The path is matched segment by segment in its escaped form, so an
  encoded slash does not end one; a literal goes before a wildcard, a wildcard before the rest. A path that
  is not clean, or that lacks only the slash, is redirected (`findHandler`).

  `findHandler_of_match` is the rule for a path that is clean already.
-/
import Netparent.Lib.Percent

namespace ServeMux

abbrev Text := List Char

/-! ## URLs -/

/-- The bytes of a path that `escape` writes as they are. -/
def plainByte (c : Char) : Bool := c.isAlphanum || "-_.~$&+,/:;=@".toList.contains c

/-- Those that may stand in an escaped path. -/
def validByte (c : Char) : Bool := plainByte c || "!'()*[]%".toList.contains c

def escape (path : Text) : Text := Percent.encode plainByte path

structure Url where
  path : Text
  /-- Empty when it is the usual encoding of the path. -/
  rawPath : Text

def isControl (c : Char) : Bool := c.toNat < 32 || c.toNat == 127

/-- The URL of a request whose request line has this path, and nothing in front of it. -/
def Url.parse (raw : Text) : Option Url :=
  if raw.head? ≠ some '/' ∨ raw.any isControl = true then none
  else (Percent.decode raw).map fun path => ⟨path, if escape path = raw then [] else raw⟩

def Url.escapedPath (u : Url) : Text :=
  if u.rawPath ≠ [] ∧ u.rawPath.all validByte ∧ Percent.decode u.rawPath = some u.path then u.rawPath
  else if u.path = ['*'] then ['*'] else escape u.path

/-- A segment that does not decode is left as it is. -/
def pathUnescape (s : Text) : Text := (Percent.decode s).getD s

/-- The segments, with `/` in place of an empty last one. -/
def unescapeAll : List Text → List Text
  | [] => []
  | [s] => [if s = [] then ['/'] else pathUnescape s]
  | s :: ss => pathUnescape s :: unescapeAll ss

/-- The segments of a path that begins with a slash. -/
def segmentsOf (path : Text) : List Text := unescapeAll (path.tail.splitOn '/')

/-- `path.Clean` on the segments of a rooted path. -/
def cleanSegments : (stack : List Text) → List Text → List Text
  | stack, [] => stack.reverse
  | stack, s :: ss =>
      if s = [] ∨ s = ['.'] then cleanSegments stack ss
      else if s = ['.', '.'] then cleanSegments stack.tail ss
      else cleanSegments (s :: stack) ss

def joined (segments : List Text) : Text := '/' :: ['/'].intercalate segments

def cleanPath (p : Text) : Text :=
  if p = [] then ['/']
  else
    let p := if p.head? = some '/' then p else '/' :: p
    let np := joined (cleanSegments [] (p.tail.splitOn '/'))
    if p.getLast? = some '/' ∧ np ≠ ['/'] then np ++ ['/'] else np

/-! ## Patterns -/

inductive Segment where
  | literal (s : Text)
  | wildcard
  /-- A trailing slash. -/
  | rest
  deriving DecidableEq

structure Route (η : Type) where
  method : Option Text
  segments : List Segment
  handler : η

section Mux

variable {η : Type}

/-- Routes with what is left of their segments: a node of the routing tree. -/
abbrev Node (η : Type) := List (List Segment × Route η)

def Node.child (node : Node η) (s : Segment) : Node η :=
  node.filterMap fun
    | (t :: ts, r) => if t = s then some (ts, r) else none
    | ([], _) => none

def Node.pattern (node : Node η) : Option (Route η) :=
  node.findSome? fun p => if p.1 = [] then some p.2 else none

/-- The route a path matches, and what its wildcards match. -/
def matchPath : (segments : List Text) → Node η → (values : List Text) → Option (Route η × List Text)
  | [], node, values => node.pattern.map fun r => (r, values)
  | s :: ss, node, values =>
      match matchPath ss (node.child (.literal s)) values with
      | some m => some m
      | none =>
          match if s = ['/'] then none else matchPath ss (node.child .wildcard) (values ++ [s]) with
          | some m => some m
          | none => (node.child .rest).pattern.map fun r => (r, values)

/-- The routes registered for a method, or for none. -/
def root (mux : List (Route η)) (method : Option Text) : Node η :=
  (mux.filter fun r => r.method = method).map fun r => (r.segments, r)

/-- GET matches HEAD too, and a pattern without a method everything. -/
def matchMethodAndPath (mux : List (Route η)) (method path : Text) : Option (Route η × List Text) :=
  match matchPath (segmentsOf path) (root mux (some method)) [] with
  | some m => some m
  | none =>
      match if method = "HEAD".toList then
        matchPath (segmentsOf path) (root mux (some "GET".toList)) [] else none with
      | some m => some m
      | none => matchPath (segmentsOf path) (root mux none) []

/-- The rest matched by a trailing slash is empty, if there is one. -/
def exactMatch (r : Route η) (path : Text) : Bool :=
  if r.segments.getLast? ≠ some .rest then true
  else if path.getLast? ≠ some '/' then false
  else r.segments.length = path.count '/'

inductive Found (η : Type) where
  | handler (h : η) (values : List Text)
  | redirect (path : Text)
  | notAllowed
  | notFound

/-- The path to redirect to because only a slash is missing. -/
def slashRedirect (mux : List (Route η)) (method path : Text) (u : Url) : Option Text :=
  if (matchMethodAndPath mux method path).any (fun m => exactMatch m.1 path) then none
  else if path.getLast? = some '/' then none
  else if (matchMethodAndPath mux method (path ++ ['/'])).any (fun m => exactMatch m.1 (path ++ ['/']))
    then some (cleanPath u.path ++ ['/'])
  else none

/-- Another method has a pattern for the path, or for the path and a slash. -/
def otherMethod (mux : List (Route η)) (path : Text) : Bool :=
  mux.any fun r => r.method.isSome &&
    ((matchPath (segmentsOf path) (root mux r.method) []).isSome ||
      (path.getLast? != some '/' &&
        (matchPath (segmentsOf (path ++ ['/'])) (root mux r.method) []).isSome))

/-- The path that is matched; that of a CONNECT request is not cleaned. -/
def matchedPath (method : Text) (u : Url) : Text :=
  if method = "CONNECT".toList then u.escapedPath else cleanPath u.escapedPath

def findHandler (mux : List (Route η)) (method : Text) (u : Url) : Found η :=
  match slashRedirect mux method (matchedPath method u) u with
  | some target => .redirect target
  | none =>
      if matchedPath method u = u.escapedPath then
        match matchMethodAndPath mux method (matchedPath method u) with
        | some (r, values) => .handler r.handler values
        | none => if otherMethod mux (matchedPath method u) then .notAllowed else .notFound
      else .redirect (matchedPath method u)

/-! ## What a path matches -/

/-- Segments of a pattern, those of a path, and what the wildcards stand for. -/
inductive Matches : List Segment → List Text → List Text → Prop
  | nil : Matches [] [] []
  | literal (s : Text) {ts : List Segment} {ss vs : List Text} (h : Matches ts ss vs) :
      Matches (.literal s :: ts) (s :: ss) vs
  | wildcard {s : Text} (hs : s ≠ ['/']) {ts : List Segment} {ss vs : List Text} (h : Matches ts ss vs) :
      Matches (.wildcard :: ts) (s :: ss) (s :: vs)
  | rest (s : Text) (ss : List Text) : Matches [.rest] (s :: ss) []

theorem Node.mem_child {node : Node η} {s : Segment} {ts : List Segment} {r : Route η} :
    (ts, r) ∈ node.child s ↔ (s :: ts, r) ∈ node := by
  unfold Node.child
  rw [List.mem_filterMap]
  constructor
  · rintro ⟨⟨us, q⟩, hmem, hp⟩
    cases us with
    | nil => cases hp
    | cons u us =>
      dsimp only at hp
      split at hp
      · next hu =>
        cases hp
        exact hu ▸ hmem
      · cases hp
  · intro hmem
    exact ⟨(s :: ts, r), hmem, if_pos rfl⟩

theorem Node.pattern_mem {node : Node η} {r : Route η} (h : node.pattern = some r) : ([], r) ∈ node := by
  obtain ⟨⟨ts, q⟩, hmem, hp⟩ := List.exists_of_findSome?_eq_some h
  dsimp only at hp
  split at hp
  · next hts =>
    cases hp
    exact hts ▸ hmem
  · cases hp

theorem Node.pattern_isSome {node : Node η} {r : Route η} (h : ([], r) ∈ node) :
    node.pattern ≠ none := by
  intro hnone
  have hr := List.findSome?_eq_none_iff.mp hnone _ h
  rw [if_pos rfl] at hr
  cases hr

/-- What is found matches. -/
theorem matchPath_sound {ss : List Text} {node : Node η} {values values' : List Text} {r : Route η}
    (h : matchPath ss node values = some (r, values')) :
    ∃ ts vs, (ts, r) ∈ node ∧ Matches ts ss vs ∧ values' = values ++ vs := by
  induction ss generalizing node values with
  | nil =>
    obtain ⟨r', hr', heq⟩ := Option.map_eq_some_iff.mp h
    cases heq
    exact ⟨[], [], Node.pattern_mem hr', .nil, (List.append_nil _).symm⟩
  | cons s ss ih =>
    rw [matchPath] at h
    split at h
    · next m hm =>
      cases h
      obtain ⟨ts, vs, hmem, hmatch, hvs⟩ := ih hm
      exact ⟨_, vs, Node.mem_child.mp hmem, .literal s hmatch, hvs⟩
    · split at h
      · next m hm =>
        cases h
        split at hm
        · cases hm
        · next hs =>
          obtain ⟨ts, vs, hmem, hmatch, hvs⟩ := ih hm
          refine ⟨_, s :: vs, Node.mem_child.mp hmem, .wildcard hs hmatch, ?_⟩
          rw [hvs, List.append_assoc]
          rfl
      · obtain ⟨r', hr', heq⟩ := Option.map_eq_some_iff.mp h
        cases heq
        exact ⟨_, [], Node.mem_child.mp (Node.pattern_mem hr'), .rest s ss, (List.append_nil _).symm⟩

/-- A path that matches something is not left without a route. -/
theorem matchPath_complete {ss : List Text} {node : Node η} {ts : List Segment} {vs : List Text}
    {r : Route η} (hmem : (ts, r) ∈ node) (hmatch : Matches ts ss vs) (values : List Text) :
    matchPath ss node values ≠ none := by
  induction hmatch generalizing node values with
  | nil => exact fun h => Node.pattern_isSome hmem (Option.map_eq_none_iff.mp h)
  | literal s _ ih =>
    rw [matchPath]
    split
    · nofun
    · next hnone => exact absurd hnone (ih (Node.mem_child.mpr hmem) values)
  | wildcard hs _ ih =>
    rw [matchPath]
    split
    · nofun
    · split
      · nofun
      · next hnone =>
        rw [if_neg hs] at hnone
        exact absurd hnone (ih (Node.mem_child.mpr hmem) _)
  | rest s ss =>
    rw [matchPath]
    split
    · nofun
    · split
      · nofun
      · exact fun h => Node.pattern_isSome (Node.mem_child.mpr hmem) (Option.map_eq_none_iff.mp h)

theorem mem_root {mux : List (Route η)} {method : Option Text} {ts : List Segment} {r : Route η} :
    (ts, r) ∈ root mux method ↔ r ∈ mux ∧ r.method = method ∧ ts = r.segments := by
  unfold root
  rw [List.mem_map]
  constructor
  · rintro ⟨q, hq, heq⟩
    cases heq
    obtain ⟨hmem, hmethod⟩ := List.mem_filter.mp hq
    exact ⟨hmem, of_decide_eq_true hmethod, rfl⟩
  · rintro ⟨hmem, hmethod, rfl⟩
    exact ⟨r, List.mem_filter.mpr ⟨hmem, decide_eq_true hmethod⟩, rfl⟩

/-- A method that a route is for. -/
def Route.takes (r : Route η) (method : Text) : Prop :=
  r.method = some method ∨ (method = "HEAD".toList ∧ r.method = some "GET".toList) ∨ r.method = none

theorem matchMethodAndPath_sound {mux : List (Route η)} {method path : Text} {r : Route η}
    {values : List Text} (h : matchMethodAndPath mux method path = some (r, values)) :
    r ∈ mux ∧ r.takes method ∧ Matches r.segments (segmentsOf path) values := by
  have hroot : ∀ m, matchPath (segmentsOf path) (root mux m) [] = some (r, values) →
      r ∈ mux ∧ r.method = m ∧ Matches r.segments (segmentsOf path) values := fun m hm => by
    obtain ⟨ts, vs, hmem, hmatch, rfl⟩ := matchPath_sound hm
    obtain ⟨hr, hmethod, rfl⟩ := mem_root.mp hmem
    exact ⟨hr, hmethod, hmatch⟩
  unfold matchMethodAndPath at h
  split at h
  · next m hm =>
    cases h
    obtain ⟨hr, hmethod, hmatch⟩ := hroot _ hm
    exact ⟨hr, Or.inl hmethod, hmatch⟩
  · split at h
    · next m hm =>
      cases h
      split at hm
      · next hhead =>
        obtain ⟨hr, hmethod, hmatch⟩ := hroot _ hm
        exact ⟨hr, Or.inr (Or.inl ⟨hhead, hmethod⟩), hmatch⟩
      · cases hm
    · obtain ⟨hr, hmethod, hmatch⟩ := hroot _ h
      exact ⟨hr, Or.inr (Or.inr hmethod), hmatch⟩

/-- The route is found that alone takes the method and matches the path. -/
theorem matchMethodAndPath_of_only {mux : List (Route η)} {method path : Text} {r : Route η}
    {values : List Text} (hmem : r ∈ mux) (htakes : r.takes method)
    (hmatch : Matches r.segments (segmentsOf path) values)
    (honly : ∀ q ∈ mux, ∀ vs, q.takes method → Matches q.segments (segmentsOf path) vs →
      q = r ∧ vs = values) :
    matchMethodAndPath mux method path = some (r, values) := by
  have hroot : matchPath (segmentsOf path) (root mux r.method) [] ≠ none :=
    matchPath_complete (mem_root.mpr ⟨hmem, rfl, rfl⟩) hmatch []
  have hsome : matchMethodAndPath mux method path ≠ none := by
    unfold matchMethodAndPath
    rcases htakes with hm | ⟨hhead, hm⟩ | hm
    · rw [hm] at hroot
      split
      · nofun
      · next hnone => exact absurd hnone hroot
    · rw [hm] at hroot
      split
      · nofun
      · rw [if_pos hhead]
        split
        · nofun
        · next hnone => exact absurd hnone hroot
    · rw [hm] at hroot
      split
      · nofun
      · split
        · nofun
        · exact hroot
  obtain ⟨⟨q, vs⟩, hq⟩ := Option.ne_none_iff_exists'.mp hsome
  obtain ⟨hqmem, hqtakes, hqmatch⟩ := matchMethodAndPath_sound hq
  obtain ⟨rfl, rfl⟩ := honly q hqmem vs hqtakes hqmatch
  exact hq

/-! ## Which handler is found -/

/-- A handler that is found has a route for the method, and the path matches it as it is. -/
theorem findHandler_sound {mux : List (Route η)} {method : Text} {u : Url} {h : η} {values : List Text}
    (hfound : findHandler mux method u = .handler h values) :
    matchedPath method u = u.escapedPath ∧ ∃ r ∈ mux, r.handler = h ∧ r.takes method ∧
      Matches r.segments (segmentsOf u.escapedPath) values := by
  unfold findHandler at hfound
  split at hfound
  · cases hfound
  · split at hfound
    · next hclean =>
      rw [hclean] at hfound
      split at hfound
      · next r vs hm =>
        cases hfound
        obtain ⟨hmem, htakes, hmatch⟩ := matchMethodAndPath_sound hm
        exact ⟨hclean, r, hmem, rfl, htakes, hmatch⟩
      · split at hfound <;> cases hfound
    · cases hfound

theorem findHandler_of_match {mux : List (Route η)} {method : Text} {u : Url} {r : Route η}
    {values : List Text} (hclean : cleanPath u.escapedPath = u.escapedPath)
    (hmatch : matchMethodAndPath mux method u.escapedPath = some (r, values))
    (hslash : slashRedirect mux method u.escapedPath u = none) :
    findHandler mux method u = .handler r.handler values := by
  have hpath : matchedPath method u = u.escapedPath := by rw [matchedPath, hclean, ite_self]
  unfold findHandler
  rw [hpath, hslash]
  dsimp only
  rw [if_pos rfl, hmatch]

theorem slashRedirect_of_exact {mux : List (Route η)} {method path : Text} {u : Url} {r : Route η}
    {values : List Text} (hmatch : matchMethodAndPath mux method path = some (r, values))
    (hexact : exactMatch r path = true) : slashRedirect mux method path u = none := by
  unfold slashRedirect
  rw [hmatch, Option.any_some, if_pos hexact]

end Mux

/-! ## Paths made of segments -/

/-- A segment that is left alone when a path is cleaned. -/
structure Clean (s : Text) : Prop where
  nonempty : s ≠ []
  oneSegment : '/' ∉ s
  notDot : s ≠ ['.']
  notDots : s ≠ ['.', '.']

theorem cleanSegments_clean {ss : List Text} (h : ∀ s ∈ ss, Clean s) (stack : List Text) :
    cleanSegments stack ss = stack.reverse ++ ss := by
  induction ss generalizing stack with
  | nil => rw [cleanSegments, List.append_nil]
  | cons s ss ih =>
    obtain ⟨hs, hss⟩ := List.forall_mem_cons.mp h
    rw [cleanSegments, if_neg (not_or.mpr ⟨hs.nonempty, hs.notDot⟩), if_neg hs.notDots, ih hss,
      List.reverse_cons, List.append_assoc]
    rfl

theorem cleanSegments_mem {ss stack : List Text} {t : Text} (h : t ∈ cleanSegments stack ss) :
    t ∈ stack ∨ t ∈ ss := by
  induction ss generalizing stack with
  | nil => exact Or.inl (List.mem_reverse.mp h)
  | cons s ss ih =>
    rw [cleanSegments] at h
    split at h
    · exact (ih h).imp_right (List.mem_cons_of_mem _)
    · split at h
      · exact (ih h).imp List.mem_of_mem_tail (List.mem_cons_of_mem _)
      · rcases ih h with h | h
        · rcases List.mem_cons.mp h with rfl | h
          · exact Or.inr List.mem_cons_self
          · exact Or.inl h
        · exact Or.inr (List.mem_cons_of_mem _ h)

theorem cleanSegments_length (ss stack : List Text) :
    (cleanSegments stack ss).length ≤ stack.length + ss.length := by
  induction ss generalizing stack with
  | nil => simp [cleanSegments]
  | cons s ss ih =>
    rw [cleanSegments, List.length_cons]
    split
    · have := ih stack
      omega
    · split
      · have := ih stack.tail
        rw [List.length_tail] at this
        omega
      · have := ih (s :: stack)
        rw [List.length_cons] at this
        omega

/-- As many segments are left as there were only when none is empty. -/
theorem cleanSegments_full {ss stack : List Text}
    (h : (cleanSegments stack ss).length = stack.length + ss.length) : ∀ s ∈ ss, s ≠ [] := by
  induction ss generalizing stack with
  | nil => exact nofun
  | cons s ss ih =>
    rw [cleanSegments, List.length_cons] at h
    split at h
    · have := cleanSegments_length ss stack
      omega
    · next hs =>
      split at h
      · have := cleanSegments_length ss stack.tail
        rw [List.length_tail] at this
        omega
      · have hlength : (cleanSegments (s :: stack) ss).length = (s :: stack).length + ss.length := by
          rw [h, List.length_cons]
          omega
        exact List.forall_mem_cons.mpr ⟨(not_or.mp hs).1, ih hlength⟩

theorem splitOn_joined {ss : List Text} (hne : ss ≠ []) (h : ∀ s ∈ ss, '/' ∉ s) :
    (joined ss).tail.splitOn '/' = ss := List.splitOn_intercalate '/' h hne

theorem joined_getLast {ss : List Text} {s : Text} (hs : s ≠ []) :
    (joined (ss ++ [s])).getLast? = s.getLast? := by
  have hsuffix : ∀ ss : List Text, ∃ t, ['/'].intercalate (ss ++ [s]) = t ++ s := by
    intro ss
    induction ss with
    | nil => exact ⟨[], List.intercalate_singleton⟩
    | cons x xs ih =>
      obtain ⟨t, ht⟩ := ih
      refine ⟨x ++ ['/'] ++ t, ?_⟩
      rw [List.cons_append, List.intercalate_cons_of_ne_nil (by simp), ht]
      simp only [List.append_assoc]
  obtain ⟨t, ht⟩ := hsuffix ss
  rw [joined, ht, ← List.cons_append, List.getLast?_append_of_ne_nil _ hs]

/-- Cleaning a path that ends in a segment. -/
theorem cleanPath_concat {ss : List Text} {s : Text} (hs : s ≠ []) (hno : ∀ t ∈ ss ++ [s], '/' ∉ t) :
    cleanPath (joined (ss ++ [s])) = joined (cleanSegments [] (ss ++ [s])) := by
  have hlast : (joined (ss ++ [s])).getLast? ≠ some '/' := by
    rw [joined_getLast hs]
    exact fun hl => hno s (by simp) (List.mem_of_getLast? hl)
  have hhead : (joined (ss ++ [s])).head? = some '/' := rfl
  unfold cleanPath
  rw [if_neg (by nofun), hhead, if_pos rfl]
  dsimp only
  rw [if_neg fun hl => hlast hl.1, splitOn_joined (by simp) hno]

theorem cleanPath_joined {ss : List Text} (hne : ss ≠ []) (h : ∀ s ∈ ss, Clean s) :
    cleanPath (joined ss) = joined ss := by
  obtain ⟨init, s, rfl⟩ := List.eq_nil_or_concat ss |>.resolve_left hne
  rw [List.concat_eq_append] at h ⊢
  rw [cleanPath_concat (h s (by simp)).nonempty fun t ht => (h t ht).oneSegment, cleanSegments_clean h]
  rfl

theorem joined_slash {ss : List Text} (hne : ss ≠ []) : joined ss ++ ['/'] = joined (ss ++ [[]]) := by
  have happ : ['/'].intercalate ss ++ ['/'] = ['/'].intercalate (ss ++ [[]]) := by
    induction ss with
    | nil => exact absurd rfl hne
    | cons s ss ih =>
      cases ss with
      | nil => rw [List.intercalate_singleton]; rfl
      | cons t ts =>
        rw [List.cons_append, List.intercalate_cons_of_ne_nil (List.cons_ne_nil t ts), List.append_assoc,
          ih (List.cons_ne_nil t ts)]
        exact (List.intercalate_cons_of_ne_nil (by simp)).symm
  rw [joined, joined, List.cons_append, happ]

/-- A slash behind a path adds a segment. -/
theorem segmentsOf_slash {s : Text} {ss : List Text} (hno : ∀ t ∈ s :: ss, '/' ∉ t) :
    ∃ rest, segmentsOf (joined (s :: ss) ++ ['/']) = pathUnescape s :: rest := by
  have hno' : ∀ t ∈ s :: ss ++ [[]], '/' ∉ t := fun t ht => by
    rcases List.mem_append.mp ht with ht | ht
    · exact hno t ht
    · rw [List.mem_singleton.mp ht]
      exact List.not_mem_nil
  rw [joined_slash (List.cons_ne_nil _ _), segmentsOf, splitOn_joined (by simp) hno', List.cons_append]
  cases hrest : ss ++ [[]] with
  | nil => exact absurd hrest (by simp)
  | cons t ts => exact ⟨_, unescapeAll.eq_3 s (t :: ts) (by simp)⟩

/-- A catch-all matches exactly only the path `/`. -/
theorem exactMatch_rest {η : Type} {r : Route η} (hr : r.segments = [.rest]) (path : Text) :
    exactMatch r ('/' :: path ++ ['/']) = false := by
  unfold exactMatch
  rw [hr, if_neg (by simp), if_neg (by rw [List.getLast?_concat]; simp)]
  simp

/-- A path that is clean has no empty segment. -/
theorem nonempty_of_clean {ss : List Text} {s : Text} (hs : s ≠ []) (hno : ∀ t ∈ ss ++ [s], '/' ∉ t)
    (h : cleanPath (joined (ss ++ [s])) = joined (ss ++ [s])) : ∀ t ∈ ss ++ [s], t ≠ [] := by
  have hne : ss ++ [s] ≠ [] := by simp
  have hlast : (joined (ss ++ [s])).getLast? ≠ some '/' := by
    rw [joined_getLast hs]
    exact fun hl => hno s (by simp) (List.mem_of_getLast? hl)
  have hclean : joined (cleanSegments [] (ss ++ [s])) = joined (ss ++ [s]) := by
    rwa [cleanPath_concat hs hno] at h
  have hsegments : cleanSegments [] (ss ++ [s]) = ss ++ [s] := by
    have hkept : cleanSegments [] (ss ++ [s]) ≠ [] := fun hnil => by
      rw [hnil] at hclean
      exact hlast (by rw [← hclean]; rfl)
    rw [← splitOn_joined hkept fun t ht => hno t ((cleanSegments_mem ht).resolve_left nofun), hclean,
      splitOn_joined hne hno]
  have hlength : (cleanSegments [] (ss ++ [s])).length = ([] : List Text).length + (ss ++ [s]).length := by
    rw [hsegments, List.length_nil, Nat.zero_add]
  exact cleanSegments_full hlength

theorem unescapeAll_map {ss : List Text} (h : ∀ s ∈ ss, s ≠ []) :
    unescapeAll ss = ss.map pathUnescape := by
  induction ss with
  | nil => rfl
  | cons s ss ih =>
    obtain ⟨hs, hss⟩ := List.forall_mem_cons.mp h
    cases ss with
    | nil => rw [unescapeAll, if_neg hs]; rfl
    | cons t ts =>
      rw [unescapeAll, ih hss]
      · rfl
      · nofun

theorem segmentsOf_joined {ss : List Text} (hne : ss ≠ []) (hfull : ∀ s ∈ ss, s ≠ [])
    (hno : ∀ s ∈ ss, '/' ∉ s) : segmentsOf (joined ss) = ss.map pathUnescape := by
  rw [segmentsOf, splitOn_joined hne hno, unescapeAll_map hfull]

theorem not_valid_control {c : Char} (h : isControl c = true) : validByte c = false := by
  have hall : ∀ n < 128, isControl (Char.ofNat n) = true → validByte (Char.ofNat n) = false := by
    decide +kernel
  have hsmall : c.toNat < 128 := by
    simp only [isControl, Bool.or_eq_true, decide_eq_true_eq, beq_iff_eq] at h
    omega
  have hc := hall c.toNat hsmall
  rw [Char.ofNat_toNat] at hc
  exact hc h

/-- A path in which every byte may stand is taken as it is. -/
theorem escapedPath_of_parse {raw : Text} {u : Url} (hvalid : ∀ c ∈ raw, validByte c = true)
    (hu : Url.parse raw = some u) : u.escapedPath = raw := by
  unfold Url.parse at hu
  split at hu
  · cases hu
  · next hraw =>
    obtain ⟨hslash, -⟩ := not_or.mp hraw
    rw [not_not] at hslash
    obtain ⟨rest, rfl⟩ := List.head?_eq_some_iff.mp hslash
    obtain ⟨path, hdecode, rfl⟩ := Option.map_eq_some_iff.mp hu
    have hstar : path ≠ ['*'] := by
      rintro rfl
      rw [Percent.decode_plain (by decide)] at hdecode
      obtain ⟨t, _, ht⟩ := Option.map_eq_some_iff.mp hdecode
      exact absurd (List.cons.inj ht).1 (by decide)
    by_cases hesc : escape path = '/' :: rest
    · rw [if_pos hesc, Url.escapedPath, if_neg (fun h => h.1 rfl), if_neg hstar]
      exact hesc
    · rw [if_neg hesc, Url.escapedPath, if_pos ⟨nofun, List.all_eq_true.mpr hvalid, hdecode⟩]

/-- A path of segments that decode is a URL. -/
theorem parse_joined {ss : List Text} (hvalid : ∀ s ∈ ss, ∀ c ∈ s, validByte c = true)
    (hdecode : ∀ s ∈ ss, Percent.decode s ≠ none) :
    ∃ u, Url.parse (joined ss) = some u ∧ u.escapedPath = joined ss := by
  have hchars : ∀ ss : List Text, (∀ s ∈ ss, ∀ c ∈ s, validByte c = true) →
      ∀ c ∈ ['/'].intercalate ss, validByte c = true := by
    intro ss
    induction ss with
    | nil => exact fun _ => nofun
    | cons s ss ih =>
      intro h
      obtain ⟨hs, hss⟩ := List.forall_mem_cons.mp h
      by_cases hne : ss = []
      · rw [hne, List.intercalate_singleton]
        exact hs
      · rw [List.intercalate_cons_of_ne_nil hne]
        intro c hc
        rcases List.mem_append.mp hc with hc | hc
        · rcases List.mem_append.mp hc with hc | hc
          · exact hs c hc
          · obtain rfl := List.mem_singleton.mp hc
            decide
        · exact ih hss c hc
  have hdecoded : ∀ ss : List Text, (∀ s ∈ ss, Percent.decode s ≠ none) →
      Percent.decode (['/'].intercalate ss) ≠ none := by
    intro ss
    induction ss with
    | nil => exact fun _ => nofun
    | cons s ss ih =>
      intro h
      obtain ⟨hs, hss⟩ := List.forall_mem_cons.mp h
      by_cases hne : ss = []
      · rw [hne, List.intercalate_singleton]
        exact hs
      · obtain ⟨x, hx⟩ := Option.ne_none_iff_exists'.mp hs
        obtain ⟨y, hy⟩ := Option.ne_none_iff_exists'.mp (ih hss)
        rw [List.intercalate_cons_of_ne_nil hne, List.append_assoc, Percent.decode_append hx,
          List.singleton_append, Percent.decode_plain (by decide), hy]
        nofun
  have hall : ∀ c ∈ joined ss, validByte c = true := List.forall_mem_cons.mpr ⟨by decide, hchars ss hvalid⟩
  have hcontrol : (joined ss).any isControl = false := List.any_eq_false.mpr fun c hc hctl => by
    have hc' := hall c hc
    rw [not_valid_control hctl] at hc'
    cases hc'
  obtain ⟨rest, hrest⟩ := Option.ne_none_iff_exists'.mp (hdecoded ss hdecode)
  have hpath : Percent.decode (joined ss) = some ('/' :: rest) := by
    rw [joined, Percent.decode_plain (by decide), hrest]
    rfl
  have hu : Url.parse (joined ss) =
      some ⟨'/' :: rest, if escape ('/' :: rest) = joined ss then [] else joined ss⟩ := by
    rw [Url.parse, if_neg (by rw [hcontrol]; simp [joined]), hpath]
    rfl
  exact ⟨_, hu, escapedPath_of_parse hall hu⟩

end ServeMux
