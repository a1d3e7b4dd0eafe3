/-
  What the daemon says over a whole run.

  The log of the client is a word of `Phrase`s: a greeting for a connection, what it serves, a reconnect,
  a tick (`npMqttRun_log`). From the words follows what holds of every log: online is said only
  behind a subscription that went through, offline only once and at the end (`npMain_announces`).
-/
import Netparent.Batch
import Netparent.Lifecycle

namespace Netparent

/-! ## The log -/

/-- The messages handed over between two points of a log, whatever the outcome. -/
def announced (log : List Deed) : List Msg :=
  log.filterMap fun | .act (.publish m _) => some m | _ => none

/-- Those that libmosquitto has taken. -/
def taken (log : List Deed) : List Msg :=
  log.filterMap fun | .act (.publish m true) => some m | _ => none

@[simp] theorem announced_append (a b : List Deed) :
    announced (a ++ b) = announced a ++ announced b := List.filterMap_append

theorem announced_acts (acts : List Act) : announced (acts.map .act) = messagesOf acts := by
  induction acts with
  | nil => rfl
  | cons a acts ih =>
    have hcons : announced ((a :: acts).map .act) =
        announced [Deed.act a] ++ announced (acts.map .act) := announced_append [_] _
    have hmessages : messagesOf (a :: acts) = messagesOf [a] ++ messagesOf acts := by
      rw [messagesOf, ← List.singleton_append, sentOf_append, List.map_append]
      rfl
    rw [hcons, hmessages, ih]
    cases a <;> rfl

/-- What the daemon does at the beckoning of the network, in one piece. -/
inductive Phrase where
  /-- Subscribed, and announced as online. -/
  | greeting (ok : Bool)
  | unsubscribed
  | reconnect (ok : Bool)
  | served (acts : {acts : List Act // Batch (messagesOf acts)})
  | ticked (acts : {acts : List Act // Batch (messagesOf acts)})

def Phrase.deeds (cfg : Config) : Phrase → List Deed
  | .greeting ok => [.lib (.subscribe (cmdFilter cfg)) true, .act (.publish (.status true) ok)]
  | .unsubscribed => [.lib (.subscribe (cmdFilter cfg)) false]
  | .reconnect ok => [.lib .reconnectAsync ok]
  | .served acts => acts.1.map .act
  | .ticked acts => .tick :: acts.1.map .act

/-- A phrase of a callback. -/
def Phrase.ofCallback : Phrase → Bool
  | .greeting _ => true
  | .unsubscribed => true
  | .served _ => true
  | _ => false

def Phrase.isTick : Phrase → Bool
  | .ticked _ => true
  | _ => false

/-- The turns the loop takes. -/
def turnsTaken : (stop : Bool) → List Round → Nat
  | true, _ => 0
  | false, [] => 0
  | false, r :: rs => turnsTaken r.stop rs + 1

section Log

variable {κ : Type} {h : LibHost κ} {parse : Str → Option Json} {cfg : Config}

/-- The log of `q` is that of `p` and the phrases. -/
def Says (cfg : Config) (phrases : List Phrase) (p q : Process κ) : Prop :=
  q.log = p.log ++ phrases.flatMap (Phrase.deeds cfg)

theorem Says.refl (p : Process κ) : Says cfg [] p p := (List.append_nil _).symm

theorem Says.trans {a b : List Phrase} {p q r : Process κ} (hpq : Says cfg a p q)
    (hqr : Says cfg b q r) : Says cfg (a ++ b) p r := by
  unfold Says at *
  rw [hqr, hpq, List.flatMap_append, List.append_assoc]

variable (h parse cfg)

theorem serve_acts (input : Input) (p : Process κ) :
    ∃ acts : {acts : List Act // Batch (messagesOf acts)},
      (p.serve h parse cfg input).log = p.log ++ acts.1.map .act := by
  obtain ⟨ms, hms, hb⟩ := serve_follows h.toHost cfg parse (p.leases, { host := p.host })
    input
  have hnil : messagesOf (World.mk p.host []).trace = [] := rfl
  rw [hnil, List.nil_append] at hms
  exact ⟨⟨_, hms ▸ hb⟩, rfl⟩

theorem publish_log (m : Msg) (p : Process κ) :
    ∃ ok, (p.publish h cfg m).log = p.log ++ [.act (.publish m ok)] := ⟨_, rfl⟩

theorem onConnect_says (rc : Int) (p : Process κ) :
    ∃ phrases, (∀ x ∈ phrases, x.ofCallback = true) ∧ Says cfg phrases p (onConnect h cfg rc p) := by
  unfold onConnect
  by_cases hrc : rc ≠ 0
  · rw [if_pos hrc]
    exact ⟨[], nofun, Says.refl p⟩
  · rw [if_neg hrc]
    dsimp only [Process.lib]
    cases hsub : (h.lib (.subscribe (cmdFilter cfg)) p.host).1 with
    | false => exact ⟨[.unsubscribed], by simp [Phrase.ofCallback], rfl⟩
    | true =>
      obtain ⟨ok, hok⟩ := publish_log h cfg (.status true)
        (p.lib h (.subscribe (cmdFilter cfg))).2
      refine ⟨[.greeting ok], by simp [Phrase.ofCallback], ?_⟩
      dsimp only [Process.lib] at hok
      rw [hsub, List.append_assoc] at hok
      exact hok

theorem callback_says (p : Process κ) (c : Callback) :
    ∃ phrases, (∀ x ∈ phrases, x.ofCallback = true) ∧ Says cfg phrases p (callback h parse cfg p c) := by
  cases c with
  | connect rc => exact onConnect_says h cfg rc p
  | message topic payload =>
    obtain ⟨acts, hacts⟩ := serve_acts h parse cfg (.message topic payload) p
    exact ⟨[.served acts], by simp [Phrase.ofCallback], hacts.trans (by simp [Phrase.deeds])⟩
  | disconnect rc => exact ⟨[], nofun, Says.refl p⟩

/-- The callbacks of a loop. -/
theorem mosquittoLoop_says (callbacks : List Callback) (p : Process κ) :
    ∃ phrases, (∀ x ∈ phrases, x.ofCallback = true) ∧
      Says cfg phrases p (mosquittoLoop h parse cfg callbacks p) := by
  induction callbacks generalizing p with
  | nil => exact ⟨[], nofun, Says.refl p⟩
  | cons c cs ih =>
    obtain ⟨a, ha, hp⟩ := callback_says h parse cfg p c
    obtain ⟨b, hb, hq⟩ := ih (callback h parse cfg p c)
    exact ⟨a ++ b, fun x hx => (List.mem_append.mp hx).elim (ha x) (hb x), hp.trans hq⟩

theorem isTick_of_callback {phrases : List Phrase} (hp : ∀ x ∈ phrases, x.ofCallback = true) :
    phrases.countP Phrase.isTick = 0 := by
  refine List.countP_eq_zero.mpr fun x hx => ?_
  have := hp x hx
  cases x <;> simp_all [Phrase.ofCallback, Phrase.isTick]

theorem tick_says (p : Process κ) :
    ∃ x : Phrase, x.isTick = true ∧ Says cfg [x] p (tick h parse cfg p) := by
  obtain ⟨acts, hacts⟩ := serve_acts h parse cfg .poll
    { p with log := p.log ++ [Deed.tick] }
  exact ⟨.ticked acts, rfl, hacts.trans (by simp [Phrase.deeds])⟩

/-- A turn: callbacks, at most a reconnect, one tick. -/
theorem turn_says (r : Round) (p : Process κ) :
    ∃ phrases, phrases.countP Phrase.isTick = 1 ∧ Says cfg phrases p (turn h parse cfg r p) := by
  obtain ⟨a, ha, hp⟩ := mosquittoLoop_says h parse cfg r.callbacks p
  unfold turn
  dsimp only
  split
  · obtain ⟨x, hx, hq⟩ := tick_says h parse cfg
      ((mosquittoLoop h parse cfg r.callbacks p).lib h .reconnectAsync).2
    have hre : Says cfg [.reconnect _] (mosquittoLoop h parse cfg r.callbacks p)
        ((mosquittoLoop h parse cfg r.callbacks p).lib h .reconnectAsync).2 := rfl
    refine ⟨_, ?_, (hp.trans hre).trans hq⟩
    have hone : [x].countP Phrase.isTick = 1 := by simp [hx]
    rw [List.countP_append, List.countP_append, isTick_of_callback ha, hone]
    rfl
  · obtain ⟨x, hx, hq⟩ := tick_says h parse cfg
      (mosquittoLoop h parse cfg r.callbacks p)
    refine ⟨_, ?_, hp.trans hq⟩
    rw [List.countP_append, isTick_of_callback ha]
    simp [hx]

theorem mainLoop_says (stop : Bool) (rounds : List Round) (p : Process κ) :
    ∃ phrases, phrases.countP Phrase.isTick = turnsTaken stop rounds ∧
      Says cfg phrases p (mainLoop h parse cfg stop rounds p).2 := by
  induction rounds generalizing stop p with
  | nil => cases stop <;> exact ⟨[], rfl, Says.refl p⟩
  | cons r rs ih =>
    cases stop with
    | true => exact ⟨[], rfl, Says.refl p⟩
    | false =>
      obtain ⟨a, ha, hp⟩ := turn_says h parse cfg r p
      obtain ⟨b, hb, hq⟩ := ih r.stop (turn h parse cfg r p)
      refine ⟨a ++ b, ?_, hp.trans hq⟩
      rw [List.countP_append, ha, hb, turnsTaken, Nat.add_comm]

/-- The end: offline, the disconnect, and what callbacks still come. -/
theorem shutdown_log (drain : Fin 10 → List Callback) (p : Process κ) :
    ∃ ok ok', ∃ phrases : List Phrase, (∀ x ∈ phrases, x.ofCallback = true) ∧
      (shutdown h parse cfg drain p).log = p.log ++ [.act (.publish (.status false) ok),
        .lib .disconnect ok'] ++ phrases.flatMap (Phrase.deeds cfg) := by
  have hdrain : ∀ (is : List (Fin 10)) (q : Process κ), ∃ phrases : List Phrase,
      (∀ x ∈ phrases, x.ofCallback = true) ∧
      Says cfg phrases q (is.foldl (fun p i => mosquittoLoop h parse cfg (drain i) p) q) := by
    intro is
    induction is with
    | nil => exact fun q => ⟨[], nofun, Says.refl q⟩
    | cons i is ih =>
      intro q
      obtain ⟨a, ha, hp⟩ := mosquittoLoop_says h parse cfg (drain i) q
      obtain ⟨b, hb, hq⟩ := ih (mosquittoLoop h parse cfg (drain i) q)
      exact ⟨a ++ b, fun x hx => (List.mem_append.mp hx).elim (ha x) (hb x), hp.trans hq⟩
  obtain ⟨phrases, hphrases, hlog⟩ := hdrain (List.finRange 10)
    ((p.publish h cfg (.status false)).lib h .disconnect).2
  obtain ⟨ok, hok⟩ := publish_log h cfg (.status false) p
  have hend : ((p.publish h cfg (.status false)).lib h .disconnect).2.log =
      p.log ++ [.act (.publish (.status false) ok),
        .lib .disconnect (h.lib .disconnect (p.publish h cfg (.status false)).host).1] := by
    change (p.publish h cfg (.status false)).log ++ _ = _
    rw [hok, List.append_assoc]
    rfl
  unfold Says at hlog
  rw [hend] at hlog
  exact ⟨ok, _, phrases, hphrases, hlog⟩

/-- The log of `np_mqtt_run` for what it has returned. -/
inductive RunLog (np : NpConfig) (cfg : Config) (turns : Nat) : Option Int → List Deed → Prop
  | refused : RunLog np cfg turns (some (-1))
      [.lib (.connectAsync np.brokerHost np.brokerPort np.keepalive) false]
  | running (phrases : List Phrase) (ticks : phrases.countP Phrase.isTick = turns) :
      RunLog np cfg turns none
        ([.lib (.connectAsync np.brokerHost np.brokerPort np.keepalive) true] ++
          phrases.flatMap (Phrase.deeds cfg))
  | stopped (phrases after : List Phrase) (ok ok' : Bool)
      (ticks : phrases.countP Phrase.isTick = turns) (quiet : ∀ x ∈ after, x.ofCallback = true) :
      RunLog np cfg turns (some 0)
        ([.lib (.connectAsync np.brokerHost np.brokerPort np.keepalive) true] ++
          phrases.flatMap (Phrase.deeds cfg) ++
          [.act (.publish (.status false) ok), .lib .disconnect ok'] ++
          after.flatMap (Phrase.deeds cfg))

theorem npMqttRun_log (np : NpConfig) (sched : Schedule) (p : Process κ) :
    ∃ log, (npMqttRun h parse np cfg sched p).2.log = p.log ++ log ∧
      RunLog np cfg (turnsTaken sched.stop sched.rounds) (npMqttRun h parse np cfg sched p).1 log := by
  have hconnect : (p.lib h (.connectAsync np.brokerHost np.brokerPort np.keepalive)).2.log =
      p.log ++ [.lib (.connectAsync np.brokerHost np.brokerPort np.keepalive)
        (p.lib h (.connectAsync np.brokerHost np.brokerPort np.keepalive)).1] := rfl
  unfold npMqttRun
  generalize p.lib h (.connectAsync np.brokerHost np.brokerPort np.keepalive) = c at hconnect ⊢
  obtain ⟨ok, q⟩ := c
  dsimp only at hconnect ⊢
  cases ok with
  | false => exact ⟨_, hconnect, .refused⟩
  | true =>
    obtain ⟨phrases, hticks, hsays⟩ :=
      mainLoop_says h parse cfg sched.stop sched.rounds q
    unfold Says at hsays
    rw [hconnect, List.append_assoc] at hsays
    rw [if_neg (by decide)]
    by_cases hstop : (mainLoop h parse cfg sched.stop sched.rounds q).1 = true
    · obtain ⟨ok₁, ok₂, after, hafter, hlog⟩ := shutdown_log h parse cfg
        sched.drain (mainLoop h parse cfg sched.stop sched.rounds q).2
      rw [if_pos hstop]
      refine ⟨_, ?_, .stopped phrases after ok₁ ok₂ hticks hafter⟩
      dsimp only
      rw [hlog, hsays]
      simp only [List.append_assoc]
    · rw [if_neg hstop]
      exact ⟨_, hsays, .running phrases hticks⟩

variable {h parse cfg}

/-! ## What a log says -/

/-- Before every announcement of being online is a subscription that went through. -/
def Greeted (cfg : Config) (log : List Deed) : Prop :=
  ∀ before ok after, log = before ++ .act (.publish (.status true) ok) :: after →
    ∃ before', before = before' ++ [.lib (.subscribe (cmdFilter cfg)) true]

/-- Nothing in it says offline. -/
def NoFarewell (log : List Deed) : Prop := ∀ ok, .act (.publish (.status false) ok) ∉ log

def Deed.isTick : Deed → Bool
  | .tick => true
  | _ => false

theorem Greeted.append {a b : List Deed} (ha : Greeted cfg a) (hb : Greeted cfg b) :
    Greeted cfg (a ++ b) := by
  intro before ok after heq
  rcases List.append_eq_append_iff.mp heq with ⟨mid, rfl, hmid⟩ | ⟨mid, hmid, hafter⟩
  · obtain ⟨before', rfl⟩ := hb mid ok after hmid
    exact ⟨a ++ before', (List.append_assoc _ _ _).symm⟩
  · cases mid with
    | nil =>
      rw [List.append_nil] at hmid
      obtain ⟨before', hnil⟩ := hb [] ok after hafter.symm
      simp at hnil
    | cons d mid =>
      obtain ⟨rfl, -⟩ := List.cons.inj hafter
      exact ha before ok mid hmid

theorem greeted_of_notMem {log : List Deed} (hno : ∀ ok, .act (.publish (.status true) ok) ∉ log) :
    Greeted cfg log := by
  intro before ok after heq
  exact absurd (heq ▸ List.mem_append_right _ List.mem_cons_self) (hno ok)

theorem NoFarewell.append {a b : List Deed} (ha : NoFarewell a) (hb : NoFarewell b) :
    NoFarewell (a ++ b) :=
  fun ok hm => (List.mem_append.mp hm).elim (ha ok) (hb ok)

/-- Serving announces no status. -/
theorem acts_not_status (acts : {acts : List Act // Batch (messagesOf acts)}) (online ok : Bool) :
    Deed.act (.publish (.status online) ok) ∉ acts.1.map .act := by
  intro hm
  refine acts.2.not_status online ?_
  rw [← announced_acts]
  exact List.mem_filterMap.mpr ⟨_, hm, rfl⟩

theorem Phrase.greeted (x : Phrase) : Greeted cfg (x.deeds cfg) := by
  cases x with
  | greeting ok =>
    intro before ok' after heq
    rcases before with _ | ⟨d, _ | ⟨d', before⟩⟩
    · cases heq
    · obtain ⟨rfl, -⟩ := List.cons.inj heq
      exact ⟨[], rfl⟩
    · simp [Phrase.deeds] at heq
  | unsubscribed => exact greeted_of_notMem fun ok hm => by simp [Phrase.deeds] at hm
  | reconnect ok' => exact greeted_of_notMem fun ok hm => by simp [Phrase.deeds] at hm
  | served acts => exact greeted_of_notMem fun ok hm => acts_not_status acts true ok hm
  | ticked acts =>
    refine greeted_of_notMem fun ok hm => ?_
    rcases List.mem_cons.mp hm with hm | hm
    · cases hm
    · exact acts_not_status acts true ok hm

theorem Phrase.noFarewell (x : Phrase) : NoFarewell (x.deeds cfg) := by
  intro ok hm
  cases x with
  | greeting ok' => simp [Phrase.deeds] at hm
  | unsubscribed => simp [Phrase.deeds] at hm
  | reconnect ok' => simp [Phrase.deeds] at hm
  | served acts => exact acts_not_status acts false ok hm
  | ticked acts =>
    rcases List.mem_cons.mp hm with hm | hm
    · cases hm
    · exact acts_not_status acts false ok hm

theorem Phrase.ticks (x : Phrase) : (x.deeds cfg).countP Deed.isTick = if x.isTick then 1 else 0 := by
  have hacts : ∀ acts : List Act, (acts.map Deed.act).countP Deed.isTick = 0 := fun acts =>
    List.countP_eq_zero.mpr fun d hd => by
      obtain ⟨a, _, rfl⟩ := List.mem_map.mp hd
      exact Bool.false_ne_true
  cases x with
  | greeting ok => rfl
  | unsubscribed => rfl
  | reconnect ok => rfl
  | served acts => exact hacts acts.1
  | ticked acts => exact (List.countP_cons_of_pos rfl).trans (congrArg (· + 1) (hacts acts.1))

variable (cfg) in
/-- What phrases say. -/
theorem phrases_say (phrases : List Phrase) : Greeted cfg (phrases.flatMap (Phrase.deeds cfg)) ∧
    NoFarewell (phrases.flatMap (Phrase.deeds cfg)) ∧
    (phrases.flatMap (Phrase.deeds cfg)).countP Deed.isTick = phrases.countP Phrase.isTick := by
  induction phrases with
  | nil => exact ⟨greeted_of_notMem fun _ => List.not_mem_nil, fun _ => List.not_mem_nil, rfl⟩
  | cons x xs ih =>
    obtain ⟨hgreeted, hno, hticks⟩ := ih
    rw [List.flatMap_cons, List.countP_append, List.countP_cons, hticks, x.ticks, Nat.add_comm]
    exact ⟨x.greeted.append hgreeted, x.noFarewell.append hno, rfl⟩

/-- The status messages of a log and its ticks, with the exit code. -/
structure Announces (cfg : Config) (turns : Nat) (code : Option Int) (log : List Deed) : Prop where
  greeted : Greeted cfg log
  /-- Offline is said only on the way to the exit code 0. -/
  staysOnline : code ≠ some 0 → NoFarewell log
  /-- There it is said once, right before the disconnect, and nothing is polled behind it. -/
  farewell : code = some 0 → log = [] ∨ ∃ before ok ok' after,
    log = before ++ [.act (.publish (.status false) ok), .lib .disconnect ok'] ++ after ∧
      NoFarewell before ∧ NoFarewell after ∧ .tick ∉ after
  ticks : log.countP Deed.isTick = 0 ∨ log.countP Deed.isTick = turns

/-- Deeds that come before the connection. -/
def IsPrelude (log : List Deed) : Prop :=
  ∀ d ∈ log, (∃ cmd, d = .act (.exec cmd)) ∨ ∃ call ok, d = .lib call ok

theorem IsPrelude.append {a b : List Deed} (ha : IsPrelude a) (hb : IsPrelude b) :
    IsPrelude (a ++ b) :=
  fun d hd => (List.mem_append.mp hd).elim (ha d) (hb d)

variable (cfg) in
theorem IsPrelude.greets {log : List Deed} (hp : IsPrelude log) : Greeted cfg log ∧ NoFarewell log ∧
    log.countP Deed.isTick = 0 := by
  have hno : ∀ m ok, Deed.act (.publish m ok) ∉ log := fun m ok hm => by
    rcases hp _ hm with ⟨cmd, hd⟩ | ⟨call, ok', hd⟩ <;> cases hd
  refine ⟨greeted_of_notMem fun ok => hno _ ok, fun ok => hno _ ok,
    List.countP_eq_zero.mpr fun d hd => ?_⟩
  rcases hp d hd with ⟨cmd, rfl⟩ | ⟨call, ok, rfl⟩ <;> exact Bool.false_ne_true

theorem lib_prelude (call : LibCall) {p : Process κ} (hp : IsPrelude p.log) :
    IsPrelude (p.lib h call).2.log :=
  hp.append fun _ hd => Or.inr ⟨_, _, List.mem_singleton.mp hd⟩

variable (h cfg) in
theorem npMqttCreate_prelude (np : NpConfig) {p : Process κ} (hp : IsPrelude p.log) :
    IsPrelude (npMqttCreate h np cfg p).2.log := by
  have huser : ∀ q : Process κ, IsPrelude q.log → IsPrelude (setUser h np q).2.log := by
    intro q hq
    unfold setUser
    split
    · exact hq
    · exact lib_prelude _ hq
  have htls : ∀ q : Process κ, IsPrelude q.log → IsPrelude (setTls h np q).2.log := by
    intro q hq
    unfold setTls
    split
    · dsimp only
      split
      · exact lib_prelude _ (lib_prelude _ hq)
      · exact lib_prelude _ hq
    · exact hq
  unfold npMqttCreate
  dsimp only
  split
  · exact lib_prelude _ hp
  split
  · exact huser _ (lib_prelude _ hp)
  split
  · exact htls _ (huser _ (lib_prelude _ hp))
  · exact lib_prelude _ (lib_prelude _ (htls _ (huser _ (lib_prelude _ hp))))

theorem Announces.of_prelude {turns : Nat} {code : Option Int} {log : List Deed}
    (hp : IsPrelude log) (hcode : code ≠ some 0) : Announces cfg turns code log where
  greeted := (hp.greets cfg).1
  staysOnline _ := (hp.greets cfg).2.1
  farewell h0 := absurd h0 hcode
  ticks := Or.inl (hp.greets cfg).2.2

theorem ofCallback_noTick {after : List Phrase} (hq : ∀ x ∈ after, x.ofCallback = true) :
    Deed.tick ∉ after.flatMap (Phrase.deeds cfg) := by
  have hcount := (phrases_say cfg after).2.2
  rw [isTick_of_callback hq] at hcount
  exact fun hm => List.countP_eq_zero.mp hcount _ hm rfl

/-- Behind a prelude, the log of a run announces as it should. -/
theorem RunLog.announces {np : NpConfig} {turns : Nat} {rc : Option Int} {log pre : List Deed}
    (hrun : RunLog np cfg turns rc log) (hp : IsPrelude pre) :
    Announces cfg turns (rc.map fun rc => if rc = 0 then 0 else 1) (pre ++ log) := by
  have hpre : ∀ ok, IsPrelude
      (pre ++ [.lib (.connectAsync np.brokerHost np.brokerPort np.keepalive) ok]) := fun ok =>
    hp.append fun _ hd => Or.inr ⟨_, _, List.mem_singleton.mp hd⟩
  cases hrun with
  | refused => exact Announces.of_prelude (hpre false) (by decide)
  | running phrases hticks =>
    obtain ⟨hgreeted, hno, hcount⟩ := phrases_say cfg phrases
    obtain ⟨hgreeted₀, hno₀, hcount₀⟩ := (hpre true).greets cfg
    rw [← List.append_assoc]
    refine ⟨hgreeted₀.append hgreeted, fun _ => hno₀.append hno, nofun, Or.inr ?_⟩
    rw [List.countP_append, hcount₀, hcount, hticks, Nat.zero_add]
  | stopped phrases after ok ok' hticks hquiet =>
    obtain ⟨hgreeted, hno, hcount⟩ := phrases_say cfg phrases
    obtain ⟨hgreeted', hno', hcount'⟩ := phrases_say cfg after
    obtain ⟨hgreeted₀, hno₀, hcount₀⟩ := (hpre true).greets cfg
    have hbye : Greeted cfg [.act (.publish (.status false) ok), .lib .disconnect ok'] :=
      greeted_of_notMem fun ok hm => by simp at hm
    rw [← List.append_assoc, ← List.append_assoc, ← List.append_assoc]
    refine ⟨((hgreeted₀.append hgreeted).append hbye).append hgreeted', fun h0 => absurd rfl h0,
      fun _ => Or.inr ⟨_, ok, ok', _, rfl, hno₀.append hno, hno', ofCallback_noTick hquiet⟩,
      Or.inr ?_⟩
    rw [List.countP_append, List.countP_append, List.countP_append, hcount₀, hcount, hcount', hticks,
      isTick_of_callback hquiet]
    exact Nat.zero_add turns

variable (h parse cfg) in
/-- The log from the client on: what is left of it when there is no client, or a run. -/
theorem runClient_log (np : NpConfig) (sched : Schedule) {p : Process κ} (hp : IsPrelude p.log) :
    ∃ pre log, (runClient h parse np cfg sched p).2.log = pre ++ log ∧ IsPrelude pre ∧
      ((log = [] ∧ (runClient h parse np cfg sched p).1 = some 1) ∨
        ∃ rc, RunLog np cfg (turnsTaken sched.stop sched.rounds) rc log ∧
          (runClient h parse np cfg sched p).1 = rc.map fun rc => if rc = 0 then 0 else 1) := by
  have hcreated := npMqttCreate_prelude h cfg np hp
  unfold runClient
  dsimp only
  split
  · exact ⟨_, [], (List.append_nil _).symm, hcreated, Or.inl ⟨rfl, rfl⟩⟩
  · obtain ⟨log, hlog, hrun⟩ := npMqttRun_log h parse cfg np sched
      { (npMqttCreate h np cfg p).2 with
        leases := if sched.watcher then some (npLeasesCreate (some "/tmp/dhcp.leases".toList)) else none }
    exact ⟨_, log, hlog, hcreated, Or.inr ⟨_, hrun, rfl⟩⟩

/-- The set-up runs commands and does nothing else. -/
theorem npNftEnsure_execs (h : SetupHost κ) (cfg : Config) (k : κ) :
    ∀ a ∈ (npNftEnsure h cfg { host := k }).2.trace, ∃ cmd, a = .exec cmd := by
  have hnft : ∀ args (w : World κ), (∀ a ∈ w.trace, ∃ cmd, a = .exec cmd) →
      ∀ a ∈ (runNft h.toHost args w).2.trace, ∃ cmd, a = .exec cmd := by
    intro args w hw a ha
    rw [runNft_trace] at ha
    rcases List.mem_append.mp ha with ha | ha
    · exact hw a ha
    · split at ha
      · exact ⟨_, List.mem_singleton.mp ha⟩
      · cases ha
  have hscript : ∀ a ∈ (World.popenWrite h scriptCmd (ensureScript cfg) { host := k }).2.trace,
      ∃ cmd, a = Act.exec cmd := fun a ha => ⟨_, List.mem_singleton.mp ha⟩
  unfold npNftEnsure
  dsimp only
  split
  · exact hscript
  split
  · exact hnft _ _ (hnft _ _ hscript)
  split
  · exact hnft _ _ (hnft _ _ (hnft _ _ hscript))
  · exact hnft _ _ (hnft _ _ (hnft _ _ hscript))

/-- The log of the daemon: nothing, a start that failed, or a run. -/
theorem npMain_log (h : LibHost κ) (parse : Str → Option Json) {uci : Uci}
    (hcfg : (npConfigLoad uci).1 = 0 → (npConfigLoad uci).2.toConfig = some cfg) (opts : List Opt)
    (sched : Schedule) (k : κ) :
    ∃ pre log, (npMain h parse opts uci sched k).2.log = pre ++ log ∧ IsPrelude pre ∧
      ((log = [] ∧ (pre = [] ∨ (npMain h parse opts uci sched k).1 = some 1)) ∨
        ∃ rc, RunLog (npConfigLoad uci).2 cfg (turnsTaken sched.stop sched.rounds) rc log ∧
          (npMain h parse opts uci sched k).1 = rc.map fun rc => if rc = 0 then 0 else 1) := by
  have hempty : IsPrelude [] := nofun
  unfold npMain
  split
  · exact ⟨[], [], rfl, hempty, Or.inl ⟨rfl, Or.inl rfl⟩⟩
  · split
    · next h0 =>
      have hsetup : IsPrelude
          ((npNftEnsure h.toSetupHost cfg { host := k }).2.trace.map Deed.act) := by
        intro d hd
        obtain ⟨a, ha, rfl⟩ := List.mem_map.mp hd
        obtain ⟨cmd, rfl⟩ := npNftEnsure_execs h.toSetupHost cfg k a ha
        exact Or.inl ⟨cmd, rfl⟩
      dsimp only
      rw [loadedConfig_eq hcfg h0]
      split
      · exact ⟨_, [], (List.append_nil _).symm, hsetup, Or.inl ⟨rfl, Or.inr rfl⟩⟩
      · obtain ⟨pre, log, hlog, hpre, hor⟩ := runClient_log h parse cfg
          (npConfigLoad uci).2 sched (p := { host := (npNftEnsure h.toSetupHost cfg { host := k }).2.host
                                             log := (npNftEnsure h.toSetupHost cfg
                                              { host := k }).2.trace.map .act }) hsetup
        exact ⟨pre, log, hlog, hpre, hor.imp_left fun hno => ⟨hno.1, Or.inr hno.2⟩⟩
    · exact ⟨[], [], rfl, hempty, Or.inl ⟨rfl, Or.inl rfl⟩⟩

/-- **What the daemon announces.** In every run, at every time: online only behind a subscription that
    went through, offline once and at the end, and one poll for every turn of the loop. -/
theorem npMain_announces (h : LibHost κ) (parse : Str → Option Json) {uci : Uci}
    (hcfg : (npConfigLoad uci).1 = 0 → (npConfigLoad uci).2.toConfig = some cfg) (opts : List Opt)
    (sched : Schedule) (k : κ) :
    Announces cfg (turnsTaken sched.stop sched.rounds) (npMain h parse opts uci sched k).1
      (npMain h parse opts uci sched k).2.log := by
  obtain ⟨pre, log, hlog, hpre, ⟨rfl, rfl | hcode⟩ | ⟨rc, hrun, hcode⟩⟩ :=
    npMain_log h parse hcfg opts sched k
  · rw [hlog]
    exact ⟨greeted_of_notMem fun _ => List.not_mem_nil, fun _ _ => List.not_mem_nil,
      fun _ => Or.inl rfl, Or.inl rfl⟩
  · rw [hlog, hcode, List.append_nil]
    exact Announces.of_prelude hpre (by decide)
  · rw [hlog, hcode]
    exact hrun.announces hpre

end Log

/-! ## Events and snapshots -/

/-- Every event is followed by a snapshot. -/
def Followed (ms : List Msg) : Prop :=
  ∀ before e after, ms = before ++ .event e :: after → ∃ t list, Msg.devices t list ∈ after

theorem Followed.append {a b : List Msg} (ha : Followed a) (hb : Followed b) : Followed (a ++ b) := by
  intro before e after heq
  rcases List.append_eq_append_iff.mp heq with ⟨mid, _, hmid⟩ | ⟨mid, hmid, hafter⟩
  · exact hb mid e after hmid
  · cases mid with
    | nil => exact hb [] e after hafter.symm
    | cons m mid =>
      obtain ⟨rfl, rfl⟩ := List.cons.inj hafter
      obtain ⟨t, list, hm⟩ := ha before e mid hmid
      exact ⟨t, list, List.mem_append_left _ hm⟩

theorem followed_of_noEvent {ms : List Msg} (hno : ∀ e, .event e ∉ ms) : Followed ms := by
  intro before e after heq
  exact absurd (heq ▸ List.mem_append_right _ List.mem_cons_self) (hno e)

theorem followed_concat (ms : List Msg) (t : Int) (list : List Dev) :
    Followed (ms ++ [.devices t list]) := by
  intro before e after heq
  rcases List.eq_nil_or_concat after with rfl | ⟨init, last, rfl⟩
  · have hlast := congrArg List.getLast? heq
    rw [List.getLast?_concat, List.getLast?_append, List.getLast?_singleton] at hlast
    cases hlast
  · rw [List.concat_eq_append, ← List.cons_append, ← List.append_assoc] at heq
    obtain ⟨_, hlast⟩ := List.append_inj' heq rfl
    exact ⟨t, list, by rw [List.concat_eq_append, ← hlast]; exact List.mem_append_right _ List.mem_cons_self⟩

theorem Batch.followed {ms : List Msg} (hb : Batch ms) : Followed ms := by
  obtain ⟨answers, news, rfl, hnews⟩ := hb
  have hanswers : Followed (answers.map fun a => Msg.response a.1 a.2) :=
    followed_of_noEvent fun e hm => by
      obtain ⟨a, _, ha⟩ := List.mem_map.mp hm
      cases ha
  rcases hnews with rfl | ⟨events, t, list, rfl⟩
  · rwa [List.append_nil]
  · exact hanswers.append (followed_concat _ t list)

theorem phrases_followed (cfg : Config) (phrases : List Phrase) :
    Followed (announced (phrases.flatMap (Phrase.deeds cfg))) := by
  induction phrases with
  | nil => exact followed_of_noEvent fun _ => List.not_mem_nil
  | cons x xs ih =>
    have hx : Followed (announced (x.deeds cfg)) := by
      cases x with
      | greeting ok => exact followed_of_noEvent fun e hm => by cases List.mem_singleton.mp hm
      | unsubscribed => exact followed_of_noEvent fun _ => List.not_mem_nil
      | reconnect ok => exact followed_of_noEvent fun _ => List.not_mem_nil
      | served acts =>
        rw [Phrase.deeds, announced_acts]
        exact acts.2.followed
      | ticked acts =>
        have hacts : announced (Phrase.deeds cfg (.ticked acts)) = announced (acts.1.map .act) := rfl
        rw [hacts, announced_acts]
        exact acts.2.followed
    rw [List.flatMap_cons, announced_append]
    exact hx.append ih

/-- No snapshot of the log was refused by libmosquitto. -/
def SnapshotsTaken (log : List Deed) : Prop :=
  ∀ t list, Deed.act (.publish (.devices t list) false) ∉ log

/-- Then the same holds of the messages that were taken. -/
theorem taken_followed {log : List Deed} (hf : Followed (announced log)) (ht : SnapshotsTaken log) :
    Followed (taken log) := by
  intro before e after heq
  obtain ⟨l₁, l₂, rfl, _, htail⟩ := List.filterMap_eq_append_iff.mp heq
  obtain ⟨l₃, d, l₄, rfl, _, hd, rfl⟩ := List.filterMap_eq_cons_iff.mp htail
  obtain rfl : Deed.act (.publish (.event e) true) = d := by
    split at hd
    · cases hd
      rfl
    · cases hd
  rw [← List.append_assoc] at hf ht
  obtain ⟨t, list, hlater⟩ := hf (announced (l₁ ++ l₃)) e (announced l₄) (announced_append _ _)
  obtain ⟨d, hdl, hdevices⟩ := List.mem_filterMap.mp hlater
  refine ⟨t, list, List.mem_filterMap.mpr ⟨d, hdl, ?_⟩⟩
  split at hdevices
  · next m ok =>
    cases hdevices
    cases ok with
    | true => rfl
    | false => exact absurd (List.mem_append_right _ (List.mem_cons_of_mem _ hdl)) (ht t list)
  · cases hdevices

/-- In every run of the daemon a snapshot follows each event. -/
theorem npMain_followed {κ : Type} (h : LibHost κ) (parse : Str → Option Json) {cfg : Config} {uci : Uci}
    (hcfg : (npConfigLoad uci).1 = 0 → (npConfigLoad uci).2.toConfig = some cfg) (opts : List Opt)
    (sched : Schedule) (k : κ) :
    Followed (announced (npMain h parse opts uci sched k).2.log) := by
  obtain ⟨pre, log, hlog, hpre, hor⟩ := npMain_log h parse hcfg opts sched k
  have hquiet : announced pre = [] := List.filterMap_eq_nil_iff.mpr fun d hd => by
    rcases hpre d hd with ⟨cmd, rfl⟩ | ⟨call, ok, rfl⟩ <;> rfl
  have hnone : Followed [] := followed_of_noEvent fun _ => List.not_mem_nil
  rw [hlog, announced_append, hquiet, List.nil_append]
  rcases hor with ⟨rfl, _⟩ | ⟨rc, hrun, _⟩
  · exact hnone
  · cases hrun with
    | refused => exact hnone
    | running phrases ticks =>
      rw [announced_append]
      exact hnone.append (phrases_followed cfg phrases)
    | stopped phrases after ok ok' ticks quiet =>
      have hbye : Followed (announced [.act (.publish (.status false) ok), .lib .disconnect ok']) :=
        followed_of_noEvent fun e hm => by cases List.mem_singleton.mp hm
      rw [announced_append, announced_append, announced_append]
      exact ((hnone.append (phrases_followed cfg phrases)).append hbye).append
        (phrases_followed cfg after)

theorem npMain_announces_stopped : Announces defaultConfig 3 (some 0)
    (npMain startHost Json.read [] startUci stoppedSchedule none).2.log := by
  have hrun := npMain_announces startHost Json.read (fun _ => startUci_toConfig) [] stoppedSchedule none
  have hcode : (npMain startHost Json.read [] startUci stoppedSchedule none).1 = some 0 := by
    decide +kernel
  rwa [hcode] at hrun

end Netparent
