/-
  Which request an answer is for.

  A handler that answers with devices runs beside all the others, and what it has listed waits in
  `Site.serving`. `pending` goes along with a run and keeps, place by place, the request each of these
  answers is for, with the app as that request found it. An answer goes on with the listing of its own request
  and of no other, device by device (`run_placed`).
-/
import Netparent.Web.Site

namespace Netparent.Web

/-- A request in a run: what came before it, and the app as it found it. -/
structure Arrival where
  before : List SiteEvent
  site : Site
  now : Int
  stamp : Str
  ranging : Ranging
  request : Incoming

def Arrival.event (q : Arrival) : SiteEvent := .http q.now q.stamp q.ranging q.request

section Pending

variable (c : Crypto) (a : Auth) (broker : Command → Option Str) (parse : Str → Option Json)

/-- What the handlers make of it. -/
def Arrival.outcome (q : Arrival) : Except Fault Outcome :=
  handleHttp c a broker q.now q.stamp q.ranging q.site.store q.request

/-- It is one of the run. -/
structure Arrival.In (events : List SiteEvent) (q : Arrival) : Prop where
  split : q.before ++ [q.event] <+: events
  run : Site.run c a broker parse q.before {} = some q.site

/-- The requests behind `serving`, after one more event: a listing adds its request at the end, and
    an answer that goes out takes its own away. -/
def pendingAfter (before : List SiteEvent) (s : Site) (requests : List Arrival) : SiteEvent → List Arrival
  | .http now stamp ranging r =>
      let q : Arrival := ⟨before, s, now, stamp, ranging, r⟩
      match q.outcome c a broker with
      | .ok (.listed _ _) => requests ++ [q]
      | _ => requests
  | .respond i => requests.eraseIdx i
  | _ => requests

/-- … and after any number. -/
def pendingFrom (before : List SiteEvent) (s : Site) (requests : List Arrival) :
    List SiteEvent → List Arrival
  | [] => requests
  | e :: es => match s.step c a broker parse e with
      | none => requests
      | some p => pendingFrom (before ++ [e]) p.1 (pendingAfter c a broker before s requests e) es

/-- The requests whose answers are being put together after a run, in the places of `serving`. -/
def pending (events : List SiteEvent) : List Arrival := pendingFrom c a broker parse [] {} [] events

/-- The request behind an event: its own, or the one whose answer goes on or goes out. -/
def requestBehind (before : List SiteEvent) (s : Site) : SiteEvent → Option Arrival
  | .http now stamp ranging r => some ⟨before, s, now, stamp, ranging, r⟩
  | .lookup i => (pending c a broker parse before)[i]?
  | .respond i => (pending c a broker parse before)[i]?
  | _ => none

/-- `shown` is `listed`, with whatever vendor. -/
def ButVendor (shown listed : Device) : Prop := shown = { listed with vendor := shown.vendor }

/-- An answer as far as it has come, and its request: of what is listed, some have their vendors, and
    the others are left. -/
def Serves (sv : Serving) (q : Arrival) : Prop :=
  ∃ listed, q.outcome c a broker = .ok (.listed sv.router (listed ++ sv.todo)) ∧
    List.Forall₂ ButVendor sv.done listed

structure Placed (events : List SiteEvent) (s : Site) : Prop where
  serves : List.Forall₂ (Serves c a broker) s.serving (pending c a broker parse events)
  arrived : ∀ q ∈ pending c a broker parse events, q.In c a broker parse events

variable {c a broker parse}

/-! ## Places -/

section Places

variable {α β : Type} {R : α → β → Prop} {xs : List α} {ys : List β}

theorem forall₂_set (h : List.Forall₂ R xs ys) {i : Nat} {x : α} (hx : ∀ y, ys[i]? = some y → R x y) :
    List.Forall₂ R (xs.set i x) ys := by
  induction h generalizing i with
  | nil => exact .nil
  | cons hR hrest ih =>
    cases i with
    | zero => exact .cons (hx _ rfl) hrest
    | succ i => exact .cons hR (ih hx)

theorem forall₂_eraseIdx (h : List.Forall₂ R xs ys) (i : Nat) :
    List.Forall₂ R (xs.eraseIdx i) (ys.eraseIdx i) := by
  induction h generalizing i with
  | nil => exact .nil
  | cons hR hrest ih =>
    cases i with
    | zero => exact hrest
    | succ i => exact .cons hR (ih i)

theorem forall₂_getElem? (h : List.Forall₂ R xs ys) {i : Nat} {x : α} (hx : xs[i]? = some x) :
    ∃ y, ys[i]? = some y ∧ R x y := by
  induction h generalizing i with
  | nil => cases hx
  | cons hR hrest ih =>
    cases i with
    | zero =>
      cases hx
      exact ⟨_, rfl, hR⟩
    | succ i => exact ih hx

end Places

/-! ## Runs -/

theorem Site.run_concat {es : List SiteEvent} {e : SiteEvent} {s s' : Site}
    (h : Site.run c a broker parse (es ++ [e]) s = some s') : ∃ t outs,
      Site.run c a broker parse es s = some t ∧ t.step c a broker parse e = some (s', outs) := by
  induction es generalizing s with
  | nil =>
    rw [List.nil_append, Site.run] at h
    cases hstep : s.step c a broker parse e with
    | none => rw [hstep] at h; cases h
    | some p =>
      rw [hstep] at h
      obtain rfl := Option.some.inj h
      exact ⟨s, p.2, rfl, hstep⟩
  | cons x xs ih =>
    rw [List.cons_append, Site.run] at h
    cases hstep : s.step c a broker parse x with
    | none => rw [hstep] at h; cases h
    | some p =>
      rw [hstep] at h
      obtain ⟨t, outs, ht, hlast⟩ := ih h
      exact ⟨t, outs, by rw [Site.run, hstep]; exact ht, hlast⟩

theorem Site.run_cons {e : SiteEvent} {es : List SiteEvent} {s s' : Site} {outs : List Out}
    (h : s.step c a broker parse e = some (s', outs)) :
    Site.run c a broker parse (e :: es) s = Site.run c a broker parse es s' := by
  rw [Site.run, h]

theorem Site.run_append {es fs : List SiteEvent} {s s' : Site} (h : Site.run c a broker parse es s = some s') :
    Site.run c a broker parse (es ++ fs) s = Site.run c a broker parse fs s' := by
  induction es generalizing s with
  | nil =>
    cases h
    rfl
  | cons e es ih =>
    rw [Site.run] at h
    cases hstep : s.step c a broker parse e with
    | none => rw [hstep] at h; cases h
    | some p =>
      rw [hstep] at h
      rw [List.cons_append, Site.run, hstep]
      exact ih h

theorem Site.step_message {m : Message} {s : Site} {store : Store} (h : deliver parse m s.store = .ok store) :
    s.step c a broker parse (.message m) = some ({ s with store := store }, []) := by
  unfold Site.step
  dsimp only
  rw [h]

theorem pendingFrom_concat {es : List SiteEvent} {e : SiteEvent} {before : List SiteEvent} {s t s' : Site}
    {outs : List Out} {requests : List Arrival} (hrun : Site.run c a broker parse es s = some t)
    (hstep : t.step c a broker parse e = some (s', outs)) :
    pendingFrom c a broker parse before s requests (es ++ [e]) =
      pendingAfter c a broker (before ++ es) t (pendingFrom c a broker parse before s requests es) e := by
  induction es generalizing before s requests with
  | nil =>
    cases hrun
    simp only [List.nil_append, List.append_nil, pendingFrom, hstep]
  | cons x xs ih =>
    rw [Site.run] at hrun
    cases hx : s.step c a broker parse x with
    | none => rw [hx] at hrun; cases hrun
    | some p =>
      rw [hx] at hrun
      rw [List.cons_append, pendingFrom, pendingFrom, hx]
      dsimp only
      rw [ih hrun, List.append_assoc]
      rfl

theorem pending_concat {before : List SiteEvent} {e : SiteEvent} {s s' : Site} {outs : List Out}
    (hrun : Site.run c a broker parse before {} = some s)
    (hstep : s.step c a broker parse e = some (s', outs)) :
    pending c a broker parse (before ++ [e]) =
      pendingAfter c a broker before s (pending c a broker parse before) e :=
  pendingFrom_concat hrun hstep

theorem Arrival.In.append {events : List SiteEvent} {q : Arrival} (h : q.In c a broker parse events)
    (more : List SiteEvent) : q.In c a broker parse (events ++ more) :=
  ⟨h.split.trans (List.prefix_append _ _), h.run⟩

/-- The request that has just come. -/
theorem Arrival.in_now {before : List SiteEvent} {s : Site} (hrun : Site.run c a broker parse before {} = some s)
    (now : Int) (stamp : Str) (ranging : Ranging) (r : Incoming) :
    (⟨before, s, now, stamp, ranging, r⟩ : Arrival).In c a broker parse
      (before ++ [.http now stamp ranging r]) :=
  ⟨List.prefix_rfl, hrun⟩

/-- A step that leaves the places alone. -/
theorem Placed.same {before : List SiteEvent} {e : SiteEvent} {s s' : Site}
    (hp : Placed c a broker parse before s) (hserving : s'.serving = s.serving)
    (hpending : pending c a broker parse (before ++ [e]) = pending c a broker parse before) :
    Placed c a broker parse (before ++ [e]) s' where
  serves := by
    rw [hserving, hpending]
    exact hp.serves
  arrived q hq := (hp.arrived q (hpending ▸ hq)).append [e]

/-- A request. -/
theorem http_placed {before : List SiteEvent} {s : Site} (hrun : Site.run c a broker parse before {} = some s)
    (hp : Placed c a broker parse before s) {now : Int} {stamp : Str} {ranging : Ranging} {r : Incoming}
    {o : Outcome} (ho : handleHttp c a broker now stamp ranging s.store r = .ok o)
    (hafter : pending c a broker parse (before ++ [.http now stamp ranging r]) =
      pendingAfter c a broker before s (pending c a broker parse before) (.http now stamp ranging r)) :
    Placed c a broker parse (before ++ [.http now stamp ranging r]) (o.apply s).1 := by
  have hq : (⟨before, s, now, stamp, ranging, r⟩ : Arrival).outcome c a broker = .ok o := ho
  dsimp only [pendingAfter] at hafter
  rw [hq] at hafter
  cases o with
  | answer ans => exact hp.same rfl hafter
  | toggled res cmd => exact hp.same rfl hafter
  | listed router devices =>
    refine ⟨?_, fun q hmem => ?_⟩
    · rw [hafter]
      exact List.rel_append hp.serves (.cons ⟨[], hq, .nil⟩ .nil)
    · rw [hafter] at hmem
      rcases List.mem_append.mp hmem with hold | hnew
      · exact (hp.arrived q hold).append _
      · obtain rfl := List.mem_singleton.mp hnew
        exact Arrival.in_now hrun now stamp ranging r

/-- A look-up for the next device. -/
theorem Serves.lookup {router : Router} {done todo : List Device} {d : Device} {q : Arrival}
    (h : Serves c a broker ⟨router, done, d :: todo⟩ q) (vendor : Str) :
    Serves c a broker ⟨router, done ++ [{ d with vendor := vendor }], todo⟩ q := by
  obtain ⟨listed, houtcome, hdone⟩ := h
  refine ⟨listed ++ [d], ?_, List.rel_append hdone (.cons rfl .nil)⟩
  rw [List.append_assoc]
  exact houtcome

/-- One step. -/
theorem step_placed {before : List SiteEvent} {e : SiteEvent} {s s' : Site} {outs : List Out}
    (hrun : Site.run c a broker parse before {} = some s) (hp : Placed c a broker parse before s)
    (hstep : s.step c a broker parse e = some (s', outs)) : Placed c a broker parse (before ++ [e]) s' := by
  have hafter := pending_concat hrun hstep
  cases Site.steps_of_step hstep with
  | @failed now stamp ranging r err ho =>
    have hq : (⟨before, s, now, stamp, ranging, r⟩ : Arrival).outcome c a broker = .error err := ho
    dsimp only [pendingAfter] at hafter
    rw [hq] at hafter
    exact hp.same rfl hafter
  | http ho => exact http_placed hrun hp ho hafter
  | @lookup i router done todo d hi =>
    have hsame : pending c a broker parse (before ++ [.lookup i]) = pending c a broker parse before :=
      hafter
    obtain ⟨q, hq, hserves⟩ := forall₂_getElem? hp.serves hi
    refine ⟨?_, fun q' hq' => (hp.arrived q' (hsame ▸ hq')).append _⟩
    rw [hsame]
    refine forall₂_set hp.serves fun q' hq' => ?_
    obtain rfl := Option.some.inj (hq.symm.trans hq')
    exact hserves.lookup _
  | @respond i router done hi =>
    refine ⟨?_, fun q hq => ?_⟩
    · rw [hafter]
      exact forall₂_eraseIdx hp.serves i
    · rw [hafter] at hq
      exact (hp.arrived q (List.mem_of_mem_eraseIdx hq)).append _
  | message _ => exact hp.same rfl hafter
  | store _ => exact hp.same rfl hafter
  | finish _ => exact hp.same rfl hafter

/-- A run. -/
theorem run_placed {events : List SiteEvent} {s : Site}
    (hrun : Site.run c a broker parse events {} = some s) : Placed c a broker parse events s := by
  induction events using List.reverseRecOn generalizing s with
  | nil =>
    cases hrun
    exact ⟨.nil, nofun⟩
  | append_singleton es e ih =>
    obtain ⟨t, outs, ht, hstep⟩ := Site.run_concat hrun
    exact step_placed ht (ih ht) hstep

/-- The answer at a place, and the request it is for. -/
theorem request_at {events : List SiteEvent} {s : Site} (hrun : Site.run c a broker parse events {} = some s)
    {i : Nat} {sv : Serving} (hi : s.serving[i]? = some sv) :
    ∃ q, (pending c a broker parse events)[i]? = some q ∧ q.In c a broker parse events ∧
      Serves c a broker sv q := by
  have hp := run_placed hrun
  obtain ⟨q, hq, hserves⟩ := forall₂_getElem? hp.serves hi
  exact ⟨q, hq, hp.arrived q (List.mem_of_getElem? hq), hserves⟩

end Pending

end Netparent.Web
