/-
  Whether the router is there: the retained status and the will, across lost connections and restarts.

  `Link` is one router's daemon, the packets on its connection, and what the broker keeps for it: a session
  with the will, and the retained status. The daemon's steps are those of mqtt.c; of MQTT the model
  has what the daemon relies on. Packets of a connection arrive in order or not at all, a publish
  may be sent again (QoS 1), a session that ends without a DISCONNECT publishes its will, and a second
  connection of the same client ends the first. The order of all this is free.

  As long as every start could set its will and every goodbye was taken by libmosquitto, the retained
  status says online only while the broker has a session of the router, and does say so once the
  daemon's greeting has arrived (`presence`).
-/
import Netparent.Announce

namespace Netparent

/-! ## Packets -/

/-- What the daemon sends on its connection. -/
inductive Packet where
  | subscribe (filter : Str)
  | publish (m : Msg)
  | disconnect

/-- A call that failed sends nothing. -/
def Deed.packet : Deed → Option Packet
  | .lib (.subscribe filter) true => some (.subscribe filter)
  | .lib .disconnect true => some .disconnect
  | .act (.publish m true) => some (.publish m)
  | _ => none

/-- The flag of a status message. -/
def Packet.status : Packet → Option Bool
  | .publish (.status online) => some online
  | _ => none

def Packet.isPublish : Packet → Bool
  | .publish _ => true
  | _ => false

/-- Neither a DISCONNECT nor an offline status. -/
def Packet.Steadfast : Packet → Prop
  | .disconnect => False
  | .publish m => m ≠ .status false
  | .subscribe _ => True

variable {κ : Type}

def packetsBetween (p q : Process κ) : List Packet :=
  (q.log.drop p.log.length).filterMap Deed.packet

/-! ## The link -/

structure Link (κ : Type) where
  process : Process κ
  /-- The daemon has said goodbye. -/
  stopped : Bool := false
  /-- The client could set its will. -/
  will : Bool
  /-- The broker has answered a CONNECT, and the daemon has not handled that yet. -/
  connack : Bool := false
  /-- The connection is one of this process. -/
  fresh : Bool := false
  /-- Sent on the connection, and not at the broker yet. -/
  wire : List Packet := []
  /-- The publishes of this process. -/
  sent : List Packet := []
  /-- The broker's session, with its will or without. -/
  session : Option Bool := none
  retained : Option Bool
  /-- The daemon has announced itself on the connection of the session, and has not stopped. -/
  greeted : Bool := false

inductive LinkEvent (κ : Type) where
  | accept
  | greet
  | message (topic payload : Str)
  | tick
  | reconnect
  | stop
  | deliver
  | again (i : Nat)
  | lost
  /-- Another process, up to its `mosquitto_connect_async`. -/
  | restart (p : Process κ) (will : Bool)

namespace Link

/-- A session that ends without a DISCONNECT. -/
def endSession (s : Link κ) : Link κ :=
  { s with
    session := none
    retained := if s.session = some true then some false else s.retained
    greeted := false }

/-- The broker takes a packet; it has no use for one without a session. -/
def receive (s : Link κ) (x : Packet) : Link κ :=
  if s.session = none then s
  else match x with
    | .publish (.status online) => { s with retained := some online }
    | .disconnect => { s with session := none, greeted := false }
    | _ => s

/-- The daemon has become `q`, and has sent what that adds to its log. -/
def push (s : Link κ) (q : Process κ) : Link κ :=
  { s with
    process := q
    wire := s.wire ++ packetsBetween s.process q
    sent := s.sent ++ (packetsBetween s.process q).filter Packet.isPublish }

variable (h : LibHost κ) (parse : Str → Option Json) (cfg : Config)

/-- The first two calls behind the loop of `np_mqtt_run`. -/
def goodbye (p : Process κ) : Process κ := ((p.publish h cfg (.status false)).lib h .disconnect).2

/-- `none` when the event cannot happen. -/
def step (s : Link κ) : LinkEvent κ → Option (Link κ)
  | .accept => some { s.endSession with
      session := some s.will, wire := [], connack := true, fresh := true }
  | .greet =>
      if s.connack then
        let q := onConnect h cfg 0 s.process
        some { s.push q with
          connack := false
          greeted := s.session.isSome && !s.stopped &&
            (packetsBetween s.process q).any fun x => x.status = some true }
      else none
  | .message topic payload => some (s.push (callback h parse cfg s.process (.message topic payload)))
  | .tick => if s.stopped then none else some (s.push (Netparent.tick h parse cfg s.process))
  | .reconnect => if s.stopped then none else some (s.push (s.process.lib h .reconnectAsync).2)
  | .stop =>
      if s.stopped then none
      else some { s.push (goodbye h cfg s.process) with stopped := true, greeted := false }
  | .deliver => match s.wire with
      | [] => none
      | x :: xs => some ({ s with wire := xs }.receive x)
  | .again i => s.sent[i]?.map fun x => { s with wire := s.wire ++ [x] }
  | .lost => some { s.endSession with wire := [] }
  | .restart p will => some { s with
      process := p, will := will, stopped := false, connack := false, fresh := false, sent := []
      greeted := false }

def run : List (LinkEvent κ) → Link κ → Option (Link κ)
  | [], s => some s
  | e :: es, s => match s.step h parse cfg e with
      | none => none
      | some s' => run es s'

/-- A start sets its will, and a goodbye is taken by libmosquitto. -/
def Kept (s : Link κ) : LinkEvent κ → Prop
  | .restart _ will => will = true
  | .stop => Packet.publish (.status false) ∈ packetsBetween s.process (goodbye h cfg s.process)
  | _ => True

/-- Every event of the run keeps to that. -/
def AllKept : List (LinkEvent κ) → Link κ → Prop
  | [], _ => True
  | e :: es, s => Kept h cfg s e ∧ ∀ s', s.step h parse cfg e = some s' → AllKept es s'

/-! ## What goes over the wire -/

/-- The status is not online when the broker comes to a DISCONNECT. -/
def Quits : Option Bool → List Packet → Prop
  | _, [] => True
  | retained, .disconnect :: _ => retained ≠ some true
  | _, .publish (.status online) :: xs => Quits (some online) xs
  | retained, _ :: xs => Quits retained xs

theorem quits_append {retained : Option Bool} {xs ys : List Packet} (hx : Quits retained xs)
    (hy : ∀ r, Quits r ys) : Quits retained (xs ++ ys) := by
  induction xs generalizing retained with
  | nil => exact hy retained
  | cons x xs ih =>
    cases x with
    | disconnect => exact hx
    | subscribe filter => exact ih hx
    | publish m =>
      cases m with
      | status online => exact ih hx
      | devices t l => exact ih hx
      | event e => exact ih hx
      | response suffix body => exact ih hx

theorem quits_of_noDisconnect {xs : List Packet} (hx : .disconnect ∉ xs) (retained : Option Bool) :
    Quits retained xs := by
  induction xs generalizing retained with
  | nil => trivial
  | cons x xs ih =>
    have hxs : .disconnect ∉ xs := fun hm => hx (List.mem_cons_of_mem _ hm)
    cases x with
    | disconnect => exact absurd List.mem_cons_self hx
    | subscribe filter => exact ih hxs retained
    | publish m =>
      cases m with
      | status online => exact ih hxs _
      | devices t l => exact ih hxs retained
      | event e => exact ih hxs retained
      | response suffix body => exact ih hxs retained

theorem quits_of_steadfast {xs : List Packet} (hx : ∀ x ∈ xs, x.Steadfast) (retained : Option Bool) :
    Quits retained xs :=
  quits_of_noDisconnect (fun hm => hx _ hm) retained

end Link

/-! ## What the daemon sends -/

section Sends

variable {h : LibHost κ} {parse : Str → Option Json} {cfg : Config}

theorem packetsBetween_of_log {p q : Process κ} {deeds : List Deed} (hlog : q.log = p.log ++ deeds) :
    packetsBetween p q = deeds.filterMap Deed.packet := by
  rw [packetsBetween, hlog, List.drop_left]

theorem Phrase.disconnect_notMem (x : Phrase) (ok : Bool) : .lib .disconnect ok ∉ x.deeds cfg := by
  have hacts : ∀ acts : List Act, Deed.lib .disconnect ok ∉ acts.map Deed.act := fun acts hm => by
    obtain ⟨a, _, ha⟩ := List.mem_map.mp hm
    cases ha
  intro hm
  cases x with
  | greeting ok' => simp [Phrase.deeds] at hm
  | unsubscribed => simp [Phrase.deeds] at hm
  | reconnect ok' => simp [Phrase.deeds] at hm
  | served acts => exact hacts acts.1 hm
  | ticked acts => exact hacts acts.1 ((List.mem_cons.mp hm).resolve_left fun he => by cases he)

/-- Whatever follows in phrases sends no goodbye. -/
theorem Says.steadfast {phrases : List Phrase} {p q : Process κ} (hs : Says cfg phrases p q) :
    ∀ x ∈ packetsBetween p q, x.Steadfast := by
  intro x hx
  rw [packetsBetween_of_log hs] at hx
  obtain ⟨d, hd, hpacket⟩ := List.mem_filterMap.mp hx
  obtain ⟨phrase, _, hdeed⟩ := List.mem_flatMap.mp hd
  cases x with
  | subscribe filter => trivial
  | disconnect =>
    unfold Deed.packet at hpacket
    split at hpacket
    · cases hpacket
    · exact phrase.disconnect_notMem _ hdeed
    · cases hpacket
    · cases hpacket
  | publish m =>
    rintro rfl
    unfold Deed.packet at hpacket
    split at hpacket
    · cases hpacket
    · cases hpacket
    · cases hpacket
      exact phrase.noFarewell _ hdeed
    · cases hpacket

variable (h parse cfg) in
theorem callback_steadfast (p : Process κ) (c : Callback) :
    ∀ x ∈ packetsBetween p (callback h parse cfg p c), x.Steadfast := by
  obtain ⟨phrases, _, hsays⟩ := callback_says h parse cfg p c
  exact hsays.steadfast

theorem tick_steadfast (p : Process κ) :
    ∀ x ∈ packetsBetween p (tick h parse cfg p), x.Steadfast := by
  obtain ⟨x, _, hsays⟩ := tick_says h parse cfg p
  exact hsays.steadfast

theorem reconnect_steadfast (cfg : Config) (p : Process κ) :
    ∀ x ∈ packetsBetween p (p.lib h .reconnectAsync).2, x.Steadfast := by
  have hsays : Says cfg [.reconnect (h.lib .reconnectAsync p.host).1] p
      (p.lib h .reconnectAsync).2 := rfl
  exact hsays.steadfast

/-- The packets of a goodbye that libmosquitto takes end with the status offline, or a DISCONNECT
    behind it. -/
theorem goodbye_quits {p : Process κ}
    (hkept : Packet.publish (.status false) ∈ packetsBetween p (Link.goodbye h cfg p))
    (retained : Option Bool) : Link.Quits retained (packetsBetween p (Link.goodbye h cfg p)) := by
  obtain ⟨ok, ok', hlog⟩ : ∃ ok ok', (Link.goodbye h cfg p).log = p.log ++
      [.act (.publish (.status false) ok), .lib .disconnect ok'] := by
    obtain ⟨ok, hok⟩ := publish_log h cfg (.status false) p
    refine ⟨ok, (h.lib .disconnect (p.publish h cfg (.status false)).host).1, ?_⟩
    change (p.publish h cfg (.status false)).log ++ _ = _
    rw [hok, List.append_assoc]
    rfl
  rw [packetsBetween_of_log hlog] at hkept ⊢
  cases ok with
  | false => cases ok' <;> simp [Deed.packet] at hkept
  | true =>
    cases ok' with
    | false => trivial
    | true => exact show some false ≠ some true by decide

end Sends

/-! ## The invariant -/

namespace Link

variable {h : LibHost κ} {parse : Str → Option Json} {cfg : Config}

structure Inv (s : Link κ) : Prop where
  will : s.will = true
  session : s.session ≠ some false
  online : s.retained = some true → s.session ≠ none
  quits : s.session ≠ none → Quits s.retained s.wire
  /-- Before its goodbye a process sends none. -/
  wire : s.stopped = false → s.fresh = true → ∀ x ∈ s.wire, x.Steadfast
  sent : s.stopped = false → ∀ x ∈ s.sent, x.Steadfast
  publishes : ∀ x ∈ s.sent, x.isPublish = true
  connack : s.connack = true → s.fresh = true
  greeted : s.greeted = true → s.session ≠ none ∧ s.stopped = false ∧ s.fresh = true ∧
    (s.retained = some true ∨ .publish (.status true) ∈ s.wire)

theorem Inv.start (p : Process κ) {retained : Option Bool} (hr : retained ≠ some true) :
    Inv { process := p, will := true, retained := retained } where
  will := rfl
  session := nofun
  online he := absurd he hr
  quits hne := absurd rfl hne
  wire _ hf := by cases hf
  sent _ _ hx := by cases hx
  publishes _ hx := by cases hx
  connack hc := by cases hc
  greeted hg := by cases hg

theorem endSession_offline {s : Link κ} (hi : Inv s) : s.endSession.retained ≠ some true := by
  unfold endSession
  dsimp only
  split
  · decide
  · next hs =>
    intro hr
    cases hsession : s.session with
    | none => exact hi.online hr hsession
    | some will =>
      cases will with
      | true => exact hs hsession
      | false => exact hi.session hsession

/-- What the daemon sends without saying goodbye. -/
theorem Inv.push {s : Link κ} (hi : Inv s) {q : Process κ}
    (hq : ∀ x ∈ packetsBetween s.process q, x.Steadfast) : Inv (s.push q) where
  will := hi.will
  session := hi.session
  online := hi.online
  quits hne := quits_append (hi.quits hne) (quits_of_steadfast hq)
  wire hstop hfresh x hx := (List.mem_append.mp hx).elim (hi.wire hstop hfresh x) (hq x)
  sent hstop x hx := (List.mem_append.mp hx).elim (hi.sent hstop x)
    fun hx => hq x (List.mem_filter.mp hx).1
  publishes x hx := (List.mem_append.mp hx).elim (hi.publishes x) fun hx => (List.mem_filter.mp hx).2
  connack := hi.connack
  greeted hg := by
    obtain ⟨hne, hstop, hfresh, hor⟩ := hi.greeted hg
    exact ⟨hne, hstop, hfresh, hor.imp_right (List.mem_append_left _)⟩

theorem Inv.accept {s : Link κ} (hi : Inv s) : Inv { s.endSession with
    session := some s.will, wire := [], connack := true, fresh := true } where
  will := hi.will
  session := by
    dsimp only
    rw [hi.will]
    decide
  online _ := nofun
  quits _ := trivial
  wire _ _ _ hx := by cases hx
  sent := hi.sent
  publishes := hi.publishes
  connack _ := rfl
  greeted hg := by cases hg

theorem Inv.lost {s : Link κ} (hi : Inv s) : Inv { s.endSession with wire := [] } where
  will := hi.will
  session := nofun
  online hr := absurd hr (endSession_offline hi)
  quits hne := absurd rfl hne
  wire _ _ _ hx := by cases hx
  sent := hi.sent
  publishes := hi.publishes
  connack := hi.connack
  greeted hg := by cases hg

theorem Inv.greet {s : Link κ} (hi : Inv s) (hc : s.connack = true) : Inv
    { s.push (onConnect h cfg 0 s.process) with
      connack := false
      greeted := s.session.isSome && !s.stopped &&
        (packetsBetween s.process (onConnect h cfg 0 s.process)).any fun x => x.status = some true } := by
  have hpush := hi.push (callback_steadfast h (fun _ => none) cfg s.process (.connect 0))
  refine ⟨hpush.will, hpush.session, hpush.online, hpush.quits, hpush.wire, hpush.sent, hpush.publishes,
    nofun, fun hg => ?_⟩
  simp only [Bool.and_eq_true, Bool.not_eq_true', List.any_eq_true, decide_eq_true_eq] at hg
  obtain ⟨⟨hsome, hstop⟩, x, hx, hstatus⟩ := hg
  have hx' : x = .publish (.status true) := by
    unfold Packet.status at hstatus
    split at hstatus
    · cases hstatus
      rfl
    · cases hstatus
  exact ⟨Option.isSome_iff_ne_none.mp hsome, hstop, hi.connack hc,
    Or.inr (List.mem_append_right _ (hx' ▸ hx))⟩

theorem Inv.stop {s : Link κ} (hi : Inv s)
    (hkept : Packet.publish (.status false) ∈ packetsBetween s.process (goodbye h cfg s.process)) :
    Inv { s.push (goodbye h cfg s.process) with stopped := true, greeted := false } where
  will := hi.will
  session := hi.session
  online := hi.online
  quits hne := quits_append (hi.quits hne) (goodbye_quits hkept)
  wire hstop := by cases hstop
  sent hstop := by cases hstop
  publishes x hx := (List.mem_append.mp hx).elim (hi.publishes x) fun hx => (List.mem_filter.mp hx).2
  connack := hi.connack
  greeted hg := by cases hg

theorem Inv.deliver {s : Link κ} (hi : Inv s) {x : Packet} {xs : List Packet} (hw : s.wire = x :: xs) :
    Inv ({ s with wire := xs }.receive x) := by
  have hsub : ∀ y ∈ xs, y ∈ s.wire := fun y hy => hw ▸ List.mem_cons_of_mem _ hy
  have hwire : s.stopped = false → s.fresh = true → ∀ y ∈ xs, y.Steadfast :=
    fun hstop hfresh y hy => hi.wire hstop hfresh y (hsub y hy)
  have hquits := hi.quits
  have hgreeted := hi.greeted
  rw [hw] at hquits hgreeted
  unfold receive
  by_cases hsession : s.session = none
  · rw [if_pos hsession]
    exact ⟨hi.will, hi.session, hi.online, fun hne => absurd hsession hne, hwire, hi.sent,
      hi.publishes, hi.connack, fun hg => absurd hsession (hi.greeted hg).1⟩
  · rw [if_neg hsession]
    -- a packet that says nothing about the status
    have hother : Quits s.retained xs → x ≠ .publish (.status true) →
        Inv { s with wire := xs } := fun hq hx =>
      ⟨hi.will, hi.session, hi.online, fun _ => hq, hwire, hi.sent, hi.publishes, hi.connack,
        fun hg => by
          obtain ⟨h1, h2, h3, hor⟩ := hgreeted hg
          exact ⟨h1, h2, h3, hor.imp_right fun hm => (List.mem_cons.mp hm).resolve_left hx.symm⟩⟩
    cases x with
    | subscribe filter => exact hother (hquits hsession) nofun
    | disconnect =>
      exact ⟨hi.will, nofun, fun hr => absurd hr (hquits hsession), fun hno => absurd rfl hno, hwire,
        hi.sent, hi.publishes, hi.connack, fun hg => by cases hg⟩
    | publish m =>
      cases m with
      | status online =>
        refine ⟨hi.will, hi.session, fun _ => hsession, fun _ => hquits hsession, hwire, hi.sent, hi.publishes,
          hi.connack, fun hg => ?_⟩
        obtain ⟨h1, hstop, hfresh, -⟩ := hi.greeted hg
        cases online with
        | true => exact ⟨h1, hstop, hfresh, Or.inl rfl⟩
        | false =>
          exact absurd rfl (hi.wire hstop hfresh (.publish (.status false)) (hw ▸ List.mem_cons_self))
      | devices t l => exact hother (hquits hsession) nofun
      | event e => exact hother (hquits hsession) nofun
      | response suffix body => exact hother (hquits hsession) nofun

theorem Inv.again {s : Link κ} (hi : Inv s) {x : Packet} (hx : x ∈ s.sent) :
    Inv { s with wire := s.wire ++ [x] } where
  will := hi.will
  session := hi.session
  online := hi.online
  quits hne := by
    refine quits_append (hi.quits hne) (quits_of_noDisconnect fun hm => ?_)
    have hpublish := hi.publishes x hx
    rw [← List.mem_singleton.mp hm] at hpublish
    cases hpublish
  wire hstop hfresh y hy := (List.mem_append.mp hy).elim (hi.wire hstop hfresh y) fun hy =>
    hi.sent hstop y (List.mem_singleton.mp hy ▸ hx)
  sent := hi.sent
  publishes := hi.publishes
  connack := hi.connack
  greeted hg := by
    obtain ⟨h1, h2, h3, hor⟩ := hi.greeted hg
    exact ⟨h1, h2, h3, hor.imp_right (List.mem_append_left _)⟩

theorem Inv.restart {s : Link κ} (hi : Inv s) (p : Process κ) : Inv { s with
    process := p, will := true, stopped := false, connack := false, fresh := false, sent := []
    greeted := false } where
  will := rfl
  session := hi.session
  online := hi.online
  quits := hi.quits
  wire _ hf := by cases hf
  sent _ _ hx := by cases hx
  publishes _ hx := by cases hx
  connack hc := by cases hc
  greeted hg := by cases hg

/-- The step lemma. -/
theorem Inv.step {s s' : Link κ} (hi : Inv s) {e : LinkEvent κ} (hkept : Kept h cfg s e)
    (hs : s.step h parse cfg e = some s') : Inv s' := by
  cases e with
  | accept =>
    cases hs
    exact hi.accept
  | greet =>
    dsimp only [Link.step] at hs
    split at hs
    · next hc =>
      cases hs
      exact hi.greet hc
    · cases hs
  | message topic payload =>
    cases hs
    exact hi.push (callback_steadfast _ _ _ _ _)
  | tick =>
    dsimp only [Link.step] at hs
    split at hs
    · cases hs
    · cases hs
      exact hi.push (tick_steadfast _)
  | reconnect =>
    dsimp only [Link.step] at hs
    split at hs
    · cases hs
    · cases hs
      exact hi.push (reconnect_steadfast cfg _)
  | stop =>
    dsimp only [Link.step] at hs
    split at hs
    · cases hs
    · cases hs
      exact hi.stop hkept
  | deliver =>
    dsimp only [Link.step] at hs
    split at hs
    · cases hs
    · next x xs hw =>
      cases hs
      exact hi.deliver hw
  | again i =>
    obtain ⟨x, hx, rfl⟩ := Option.map_eq_some_iff.mp hs
    exact hi.again (List.mem_of_getElem? hx)
  | lost =>
    cases hs
    exact hi.lost
  | restart p will =>
    cases hs
    obtain rfl : will = true := hkept
    exact hi.restart p

/-- The run lemma. -/
theorem Inv.run {s s' : Link κ} (hi : Inv s) (events : List (LinkEvent κ))
    (hkept : AllKept h parse cfg events s) (hr : run h parse cfg events s = some s') : Inv s' := by
  induction events generalizing s with
  | nil =>
    cases hr
    exact hi
  | cons e es ih =>
    unfold Link.run at hr
    split at hr
    · cases hr
    · next s₁ hs₁ => exact ih (hi.step hkept.1 hs₁) (hkept.2 s₁ hs₁) hr

theorem allKept_cons {e : LinkEvent κ} {es : List (LinkEvent κ)} {s s' : Link κ} (he : Kept h cfg s e)
    (hs : s.step h parse cfg e = some s') (hes : AllKept h parse cfg es s') :
    AllKept h parse cfg (e :: es) s :=
  ⟨he, fun _ ht => Option.some.inj (hs.symm.trans ht) ▸ hes⟩

/-- What the retained status says of the router. -/
structure Present (s : Link κ) : Prop where
  /-- Online is kept only while there is a session, whose end will be noticed. -/
  online : s.retained = some true → s.session ≠ none
  /-- Once all of a daemon's packets have arrived, the greeting included, online is kept. -/
  settled : s.greeted = true → s.wire = [] → s.retained = some true

/-- **Presence.** In every run of the router, its connections and the broker in which every process, the
    first included, could set its will and libmosquitto took the offline status of every stop
    (`AllKept`). The daemon goes on without either, and then nothing is claimed. -/
theorem presence (h : LibHost κ) (parse : Str → Option Json) (cfg : Config) (p : Process κ)
    {retained : Option Bool} (hr : retained ≠ some true) (events : List (LinkEvent κ))
    (hkept : AllKept h parse cfg events { process := p, will := true, retained := retained })
    {s : Link κ}
    (hrun : run h parse cfg events { process := p, will := true, retained := retained } = some s) :
    Present s := by
  have hi := (Inv.start p hr).run events hkept hrun
  refine ⟨hi.online, fun hg hw => ?_⟩
  obtain ⟨-, -, -, hor⟩ := hi.greeted hg
  exact hor.resolve_right fun hm => by
    rw [hw] at hm
    cases hm

/-- A connection, a stop whose packets arrive, another process, a lost connection and the next one. -/
def presenceEvents : List (LinkEvent Ruleset) :=
  [.accept, .greet, .deliver, .deliver, .stop, .deliver, .deliver, .restart { host := none } true,
    .accept, .greet, .deliver, .deliver, .lost, .accept, .greet, .deliver, .deliver]

theorem presence_reconnected : ∃ s, run startHost Json.read defaultConfig presenceEvents
      { process := { host := none }, will := true, retained := some false } = some s ∧
    s.retained = some true ∧ Present s := by
  refine ⟨_, rfl, rfl, presence startHost Json.read defaultConfig { host := none } (by decide)
    presenceEvents ?_ rfl⟩
  -- the events up to the stop, the stop, and those behind it
  refine allKept_cons trivial rfl (allKept_cons trivial rfl (allKept_cons trivial rfl
    (allKept_cons trivial rfl (allKept_cons List.mem_cons_self rfl ?_))))
  refine allKept_cons trivial rfl (allKept_cons trivial rfl (allKept_cons rfl rfl ?_))
  exact allKept_cons trivial rfl (allKept_cons trivial rfl (allKept_cons trivial rfl
    (allKept_cons trivial rfl (allKept_cons trivial rfl (allKept_cons trivial rfl
      (allKept_cons trivial rfl (allKept_cons trivial rfl (allKept_cons trivial rfl trivial))))))))

/-- Without a will the end of the connection is not noticed. -/
example : ∃ s, run startHost Json.read defaultConfig [.accept, .greet, .deliver, .deliver, .lost]
      { process := { host := none }, will := false, retained := none } = some s ∧ ¬ Present s :=
  ⟨_, rfl, fun hp => hp.online rfl rfl⟩

end Link

end Netparent
