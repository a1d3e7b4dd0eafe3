/-
  Commands: what the handler does to the blocked set, and what it says about it.

  `requestOf` is what a message asks for, `perform` what the handler does then
  (`npHandleMessage_eq`). `toggle_outcome` and its companions give, for each action, the set left
  behind and the answer sent. Two results rest on them. An answer is truthful except in two
  kinds of failure (`truthful_iff`): an unblock whose `delete element` fails is acknowledged all the same,
  and a lookup that fails is reported as "not blocked". And with an nft that works, a run of
  messages leaves the set the commands fold to (`command_machine`).
-/
import Netparent.Lib.JsonText
import Netparent.Machine

namespace Netparent

/-! ## Requests -/

/-- What a message asks for. -/
structure Request where
  action : Str
  mac : Option Str
  reqId : Option Str
  deriving DecidableEq

/-- The address a request is about, when it names one that is accepted. -/
def Request.target (r : Request) : Option Mac := r.mac.bind normMac

theorem Request.target_none {r : Request} (h : r.mac = none) : r.target = none := by
  rw [Request.target, h]
  rfl

theorem Request.target_some {r : Request} {t : Str} (h : r.mac = some t) : r.target = normMac t := by
  rw [Request.target, h]
  rfl

/-- An answer goes to `response/<req_id>`, if there is a request id. -/
def answer (reqId : Option Str) (body : Json) : List (Str × Json) :=
  match reqId with
  | none => []
  | some q => if q = [] then [] else [(q, body)]

/-- The responses published, in order. -/
def responsesOf (trace : List Act) : List (Str × Json) :=
  (messagesOf trace).filterMap fun | .response suffix body => some (suffix, body) | _ => none

section Handler

variable {κ : Type} (h : Host κ) (parse : Str → Option Json)

def requestOf (cfg : Config) (topic payload : Str) : Option Request :=
  (parseAction topic cfg.deviceId).bind fun action =>
    (commandJson parse payload).map fun json =>
      { action := action
        mac := Json.valuestring (json.getObjectItemCaseSensitive "mac".toList)
        reqId := Json.valuestring (json.getObjectItemCaseSensitive "req_id".toList) }

def perform (cfg : Config) (leases : Option NpLeases) (r : Request) (w : World κ) :
    Option NpLeases × World κ :=
  if r.action = "block".toList then blockCommand h cfg leases r.action r.mac r.reqId w
  else if r.action = "unblock".toList then unblockCommand h cfg leases r.action r.mac r.reqId w
  else if r.action = "status".toList then (leases, statusCommand h cfg r.action r.mac r.reqId w)
  else if r.action = "list".toList then (leases, listCommand h cfg r.action r.reqId w)
  else if r.action = "ping".toList then
    (leases, reply h cfg r.reqId true r.action "pong".toList "1".toList w)
  else (leases, reply h cfg r.reqId false r.action "error".toList "unknown action".toList w)

theorem npHandleMessage_eq (cfg : Config) (leases : Option NpLeases) (topic payload : Str)
    (w : World κ) : npHandleMessage h parse cfg leases topic payload w =
      match requestOf parse cfg topic payload with
      | none => (leases, w)
      | some r => perform h cfg leases r w := by
  unfold npHandleMessage requestOf
  cases parseAction topic cfg.deviceId with
  | none => rfl
  | some action => cases commandJson parse payload <;> rfl

end Handler

/-! ## Outcomes -/

section Outcome

variable {κ α : Type} {h : Host κ} {cfg : Config} {view : κ → α} {r : Request}

theorem perform_block (ha : r.action = "block".toList) (leases : Option NpLeases) (w : World κ) :
    perform h cfg leases r w = toggleCommand h (npNftBlock h) "nft block failed".toList cfg leases
      r.action r.mac r.reqId w :=
  if_pos ha

theorem perform_unblock (ha : r.action = "unblock".toList) (leases : Option NpLeases)
    (w : World κ) :
    perform h cfg leases r w = toggleCommand h (npNftUnblock h) "nft unblock failed".toList cfg
      leases r.action r.mac r.reqId w :=
  (if_neg (by rw [ha]; decide)).trans (if_pos ha)

theorem perform_status (ha : r.action = "status".toList) (leases : Option NpLeases) (w : World κ) :
    perform h cfg leases r w = (leases, statusCommand h cfg r.action r.mac r.reqId w) := by
  rw [perform, if_neg (by rw [ha]; decide), if_neg (by rw [ha]; decide), if_pos ha]

theorem responses_keeps : Keeps h cfg fun w => responsesOf w.trace :=
  messages_keeps.comp (List.filterMap _)

theorem responsesOf_of_sent {a b : List Act} (hs : sentOf a = sentOf b) :
    responsesOf a = responsesOf b := by
  rw [responsesOf, responsesOf, messagesOf, messagesOf, hs]

theorem reply_responses (reqId : Option Str) (ok : Bool) (action key val : Str) (w : World κ) :
    responsesOf (reply h cfg reqId ok action key val w).trace =
      responsesOf w.trace ++ answer reqId (replyBody ok action key val) := by
  unfold reply answer
  cases reqId with
  | none => simp
  | some q =>
    dsimp only
    split
    · simp
    · simp [responsesOf, publish_messages]

/-- A republish publishes events and a snapshot, no response. -/
theorem republishLeases_responses (leases : Option NpLeases) (w : World κ) :
    responsesOf (republishLeases h cfg leases w).2.trace = responsesOf w.trace := by
  cases leases with
  | none => rfl
  | some l =>
    obtain ⟨t, ht⟩ := npLeasesRepublish_messages h cfg l w
    rw [republishLeases, responsesOf, ht]
    by_cases hf : l.firstRun = true
    · simp [hf, responsesOf]
    · simp [hf, responsesOf, List.filterMap_map]

/-- The answer of a command that changes the set, from the wrapper's return value. -/
def toggleBody (rc : Str → Int) (failed action : Str) : Option Str → Json
  | none => replyBody false action "error".toList "mac required".toList
  | some mac =>
      if rc mac ≠ 0 then replyBody false action "error".toList failed
      else replyBody true action "mac".toList mac

/-- The set after a block or unblock is as the wrapper left it, and one answer is sent. -/
theorem toggle_outcome (hq : Quiet h cfg view) {nft : Config → Str → World κ → Int × World κ}
    (hnft : ∀ mac w, sentOf (nft cfg mac w).2.trace = sentOf w.trace) (failed : Str)
    (leases : Option NpLeases) (action : Str) (mac reqId : Option Str) (w : World κ) :
    view (toggleCommand h nft failed cfg leases action mac reqId w).2.host =
        (match mac with | none => view w.host | some mac => view (nft cfg mac w).2.host) ∧
      responsesOf (toggleCommand h nft failed cfg leases action mac reqId w).2.trace =
        responsesOf w.trace ++
          answer reqId (toggleBody (fun mac => (nft cfg mac w).1) failed action mac) := by
  have hk := hq.keepsAll
  cases mac with
  | none => exact ⟨hk.reply _ _ _ _ _ w, reply_responses _ _ _ _ _ w⟩
  | some mac =>
    have hsent := responsesOf_of_sent (hnft mac w)
    unfold toggleCommand toggleBody
    dsimp only
    split
    · exact ⟨hk.reply _ _ _ _ _ _, by rw [reply_responses, hsent]⟩
    · exact ⟨(hk.republishLeases _ _).trans (hk.reply _ _ _ _ _ _),
        by rw [republishLeases_responses, reply_responses, hsent]⟩

theorem npNftBlock_sent (cfg : Config) (mac : Str) (w : World κ) :
    sentOf (npNftBlock h cfg mac w).2.trace = sentOf w.trace := by
  unfold npNftBlock
  split
  · rfl
  · exact runNft_sent _ w

theorem npNftUnblock_sent (cfg : Config) (mac : Str) (w : World κ) :
    sentOf (npNftUnblock h cfg mac w).2.trace = sentOf w.trace := by
  unfold npNftUnblock
  split
  · rfl
  · exact runNft_sent _ w

/-- The answer of `status`, from the wrapper's tri-state value. -/
def statusBody (state : Str → Int) (action : Str) : Option Str → Json
  | none => replyBody false action "error".toList "mac required".toList
  | some mac =>
      if state mac < 0 then replyBody false action "error".toList "lookup failed".toList
      else replyBody true action "blocked".toList
        (if state mac ≠ 0 then "true".toList else "false".toList)

theorem status_outcome (hq : Quiet h cfg view) (action : Str) (mac reqId : Option Str)
    (w : World κ) :
    view (statusCommand h cfg action mac reqId w).host = view w.host ∧
      responsesOf (statusCommand h cfg action mac reqId w).trace = responsesOf w.trace ++
        answer reqId (statusBody (fun mac => (npNftIsBlocked h cfg mac w).1) action mac) := by
  have hk := hq.keepsAll
  cases mac with
  | none => exact ⟨hk.reply _ _ _ _ _ w, reply_responses _ _ _ _ _ w⟩
  | some mac =>
    have hread : responsesOf (npNftIsBlocked h cfg mac w).2.trace = responsesOf w.trace :=
      responses_keeps.npNftIsBlocked mac w
    unfold statusCommand statusBody
    dsimp only
    split
    · exact ⟨(hk.reply _ _ _ _ _ _).trans (hk.npNftIsBlocked mac w), by rw [reply_responses, hread]⟩
    · exact ⟨(hk.reply _ _ _ _ _ _).trans (hk.npNftIsBlocked mac w), by rw [reply_responses, hread]⟩

/-- The answer of `list` is about the set, not to it. -/
theorem list_outcome (hq : Quiet h cfg view) (action : Str) (reqId : Option Str) (w : World κ) :
    view (listCommand h cfg action reqId w).host = view w.host := by
  have hk := hq.keepsAll
  unfold listCommand
  cases reqId with
  | none => exact hk.npNftList w
  | some r => exact (hk.published _ _).trans (hk.npNftList w)

/-- Only block and unblock reach for the set. -/
theorem perform_other (hq : Quiet h cfg view) (hb : r.action ≠ "block".toList)
    (hu : r.action ≠ "unblock".toList) (leases : Option NpLeases) (w : World κ) :
    view (perform h cfg leases r w).2.host = view w.host := by
  have hk := hq.keepsAll
  rw [perform, if_neg hb, if_neg hu]
  split
  · exact (status_outcome hq r.action r.mac r.reqId w).1
  · split
    · exact list_outcome hq r.action r.reqId w
    · split
      · exact hk.reply _ _ _ _ _ w
      · exact hk.reply _ _ _ _ _ w

end Outcome

/-! ## Truthful answers -/

def saysOk (body : Json) : Prop := body.getObjectItemCaseSensitive "ok".toList = some (.bool true)

def saysFailed (body : Json) : Prop :=
  body.getObjectItemCaseSensitive "ok".toList = some (.bool false)

theorem replyBody_ok (ok : Bool) (action key val : Str) :
    (replyBody ok action key val).getObjectItemCaseSensitive "ok".toList = some (.bool ok) := rfl

theorem statusBody_blocked (action val : Str) :
    (replyBody true action "blocked".toList val).getObjectItemCaseSensitive "blocked".toList =
      some (.str val) := rfl

/-- An answer that tells the truth about the sets before and after. -/
structure Honest (r : Request) (before after : Finset Mac) (body : Json) : Prop where
  block : saysOk body → r.action = "block".toList → ∃ m, r.target = some m ∧ m ∈ after
  unblock : saysOk body → r.action = "unblock".toList → ∃ m, r.target = some m ∧ m ∉ after
  status : saysOk body → r.action = "status".toList → ∃ m, r.target = some m ∧
    body.getObjectItemCaseSensitive "blocked".toList =
      some (.str (if m ∈ after then "true".toList else "false".toList))
  failed : saysFailed body → after = before

section Law

variable {κ : Type} (h : Host κ) (parse : Str → Option Json)

/-- Every answer to the message is honest. -/
def Truthful (cfg : Config) (set : κ → Finset Mac) (leases : Option NpLeases)
    (topic payload : Str) (k : κ) : Prop :=
  ∀ r, requestOf parse cfg topic payload = some r →
    ∀ q body, (q, body) ∈
        responsesOf (npHandleMessage h parse cfg leases topic payload { host := k }).2.trace →
      Honest r (set k)
        (set (npHandleMessage h parse cfg leases topic payload { host := k }).2.host) body

/-- nft is run with these arguments and exits 0. -/
def Exits0 (args : Str) (k : κ) : Prop :=
  args.length < 768 ∧ succeeded (h.popen (nftCmd args) k).1 = true

/-- The two failures an answer hides. It is sent, it is about a blocked address `m`, and either it is
    an unblock and deleting `m` fails, or it is a lookup of `m` that fails other than by not starting. -/
def HidesFailure (cfg : Config) (set : κ → Finset Mac) (topic payload : Str) (k : κ) : Prop :=
  ∃ r m, requestOf parse cfg topic payload = some r ∧ r.reqId ≠ none ∧ r.reqId ≠ some [] ∧
    r.target = some m ∧ m ∈ set k ∧
    (r.action = "unblock".toList ∧ ¬ Exits0 h (deleteElementArgs cfg m.text) k ∨
      r.action = "status".toList ∧ (h.system (getElementCmd cfg m.text) k).1 ≠ 0 ∧
        (h.system (getElementCmd cfg m.text) k).1 ≠ -1)

theorem mem_answer {reqId : Option Str} {body body' : Json} {q : Str} :
    (q, body') ∈ answer reqId body ↔ reqId ≠ none ∧ reqId ≠ some [] ∧ reqId = some q ∧ body' = body := by
  unfold answer
  cases reqId with
  | none => simp
  | some s =>
    by_cases hs : s = []
    · simp [hs]
    · simp only [if_neg hs, List.mem_singleton, Prod.mk.injEq]
      constructor
      · rintro ⟨rfl, rfl⟩
        simp [hs]
      · rintro ⟨-, -, heq, rfl⟩
        exact ⟨(Option.some.inj heq).symm, rfl⟩

variable {h parse} {cfg : Config} {set : κ → Finset Mac}

/-- Given what one request leaves and answers, truthfulness is honesty of that answer. -/
theorem truthful_of_outcome {leases : Option NpLeases} {topic payload : Str} {k : κ} {r : Request}
    (hr : requestOf parse cfg topic payload = some r) {after : Finset Mac} {body : Json}
    (hset : set (perform h cfg leases r { host := k }).2.host = after)
    (hresp : responsesOf (perform h cfg leases r { host := k }).2.trace = answer r.reqId body) :
    Truthful h parse cfg set leases topic payload k ↔
      (r.reqId ≠ none → r.reqId ≠ some [] → Honest r (set k) after body) := by
  unfold Truthful
  rw [npHandleMessage_eq, hr]
  constructor
  · intro ht hne hne'
    obtain ⟨q, hq⟩ := Option.ne_none_iff_exists'.mp hne
    have := ht r rfl q body (by rw [hresp]; exact mem_answer.mpr ⟨hne, hne', hq, rfl⟩)
    rwa [hset] at this
  · intro hh r' hr' q body' hb
    cases hr'
    dsimp only at hb
    rw [hresp] at hb
    obtain ⟨hne, hne', _, rfl⟩ := mem_answer.mp hb
    rw [hset]
    exact hh hne hne'

theorem honest_failed {r : Request} {before : Finset Mac} {action key val : Str} :
    Honest r before before (replyBody false action key val) := by
  have hno : ¬ saysOk (replyBody false action key val) := fun ho => by
    rw [saysOk, replyBody_ok] at ho
    cases ho
  exact ⟨fun ho => absurd ho hno, fun ho => absurd ho hno, fun ho => absurd ho hno, fun _ => rfl⟩

/-- A positive answer only has to be right about its own action. -/
theorem honest_ok {r : Request} {before after : Finset Mac} {action key val : Str} :
    Honest r before after (replyBody true action key val) ↔
      (r.action = "block".toList → ∃ m, r.target = some m ∧ m ∈ after) ∧
      (r.action = "unblock".toList → ∃ m, r.target = some m ∧ m ∉ after) ∧
      (r.action = "status".toList → ∃ m, r.target = some m ∧
        (replyBody true action key val).getObjectItemCaseSensitive "blocked".toList =
          some (.str (if m ∈ after then "true".toList else "false".toList))) := by
  have hok : saysOk (replyBody true action key val) := replyBody_ok true action key val
  constructor
  · intro hh
    exact ⟨hh.block hok, hh.unblock hok, hh.status hok⟩
  · rintro ⟨hb, hu, hs⟩
    refine ⟨fun _ => hb, fun _ => hu, fun _ => hs, fun hf => ?_⟩
    rw [saysFailed, replyBody_ok] at hf
    cases hf

theorem block_truthful (hlaw : NftLaw h cfg set) {leases : Option NpLeases} {topic payload : Str}
    {k : κ} {r : Request} (hr : requestOf parse cfg topic payload = some r)
    (ha : r.action = "block".toList) : Truthful h parse cfg set leases topic payload k := by
  obtain ⟨hset, hresp⟩ := toggle_outcome hlaw.quiet (npNftBlock_sent (h := h) cfg)
    "nft block failed".toList leases r.action r.mac r.reqId { host := k }
  rw [← perform_block ha] at hset hresp
  refine (truthful_of_outcome hr hset (hresp.trans (List.nil_append _))).mpr fun _ _ => ?_
  cases hmac : r.mac with
  | none => exact honest_failed
  | some t =>
    have hblock := npNftBlock_law hlaw t { host := k }
    have htarget := Request.target_some hmac
    unfold toggleBody
    dsimp only
    cases hm : normMac t with
    | none =>
      rw [hm] at hblock
      rw [if_pos hblock.1, hblock.2]
      exact honest_failed
    | some m =>
      rw [hm] at hblock
      dsimp only at hblock
      by_cases hrc : (npNftBlock h cfg t { host := k }).1 = 0
      · rw [if_neg (by simpa using hrc), hblock, if_pos hrc, honest_ok]
        refine ⟨fun _ => ⟨m, htarget.trans hm, Finset.mem_insert_self _ _⟩, fun hu => ?_, fun hs => ?_⟩
        · exact absurd (ha.symm.trans hu) (by decide)
        · exact absurd (ha.symm.trans hs) (by decide)
      · rw [if_pos hrc, hblock, if_neg hrc]
        exact honest_failed

theorem unblock_truthful_iff (hlaw : NftLaw h cfg set) {leases : Option NpLeases}
    {topic payload : Str} {k : κ} {r : Request}
    (hr : requestOf parse cfg topic payload = some r) (ha : r.action = "unblock".toList) :
    Truthful h parse cfg set leases topic payload k ↔
      (r.reqId ≠ none → r.reqId ≠ some [] → ∀ m, r.target = some m → m ∈ set k →
        Exits0 h (deleteElementArgs cfg m.text) k) := by
  obtain ⟨hset, hresp⟩ := toggle_outcome hlaw.quiet (npNftUnblock_sent (h := h) cfg)
    "nft unblock failed".toList leases r.action r.mac r.reqId { host := k }
  rw [← perform_unblock ha] at hset hresp
  rw [truthful_of_outcome hr hset (hresp.trans (List.nil_append _))]
  refine forall_congr' fun _ => forall_congr' fun _ => ?_
  cases hmac : r.mac with
  | none =>
    have htarget := Request.target_none hmac
    exact iff_of_true honest_failed fun m hm => absurd (htarget.symm.trans hm) (by simp)
  | some t =>
    have hunblock := npNftUnblock_law hlaw t { host := k }
    have htarget := Request.target_some hmac
    unfold toggleBody
    dsimp only
    cases hm : normMac t with
    | none =>
      rw [hm] at hunblock
      rw [if_pos hunblock.1, hunblock.2]
      exact iff_of_true honest_failed fun m hm' => absurd ((htarget.trans hm).symm.trans hm') (by simp)
    | some m =>
      rw [hm] at hunblock
      rw [if_neg (by simpa using hunblock.1), hunblock.2, honest_ok]
      have hexit : ((deleteElementArgs cfg m.text).length < 768 ∧
          succeeded (h.popen (nftCmd (deleteElementArgs cfg m.text)) k).1 = true) ↔
          Exits0 h (deleteElementArgs cfg m.text) k := Iff.rfl
      constructor
      · rintro ⟨_, hu, _⟩ m' hm' hmem
        obtain rfl : m = m' := Option.some.inj ((htarget.trans hm).symm.trans hm')
        obtain ⟨m'', hm'', hnot⟩ := hu ha
        obtain rfl : m = m'' := Option.some.inj ((htarget.trans hm).symm.trans hm'')
        by_contra hexits
        rw [if_neg (mt hexit.mp hexits)] at hnot
        exact hnot hmem
      · intro hcond
        refine ⟨fun hb => absurd (ha.symm.trans hb) (by decide), fun _ => ⟨m, htarget.trans hm, ?_⟩,
          fun hs => absurd (ha.symm.trans hs) (by decide)⟩
        by_cases hmem : m ∈ set k
        · rw [if_pos (hexit.mpr (hcond m (htarget.trans hm) hmem))]
          exact Finset.notMem_erase _ _
        · split
          · exact Finset.notMem_erase _ _
          · exact hmem

theorem status_truthful_iff (hlaw : NftLaw h cfg set) {leases : Option NpLeases}
    {topic payload : Str} {k : κ} {r : Request}
    (hr : requestOf parse cfg topic payload = some r) (ha : r.action = "status".toList) :
    Truthful h parse cfg set leases topic payload k ↔
      (r.reqId ≠ none → r.reqId ≠ some [] → ∀ m, r.target = some m → m ∈ set k →
        (h.system (getElementCmd cfg m.text) k).1 = 0 ∨
          (h.system (getElementCmd cfg m.text) k).1 = -1) := by
  obtain ⟨hset, hresp⟩ := status_outcome hlaw.quiet r.action r.mac r.reqId { host := k }
  have hperform : perform h cfg leases r { host := k } = _ := perform_status ha leases _
  rw [truthful_of_outcome hr ((congrArg (fun x => set x.2.host) hperform).trans hset)
    ((congrArg (fun x => responsesOf x.2.trace) hperform).trans (hresp.trans (List.nil_append _)))]
  refine forall_congr' fun _ => forall_congr' fun _ => ?_
  cases hmac : r.mac with
  | none =>
    have htarget := Request.target_none hmac
    exact iff_of_true honest_failed fun m hm => absurd (htarget.symm.trans hm) (by simp)
  | some t =>
    have hstate : (npNftIsBlocked h cfg t { host := k }).1 = _ := npNftIsBlocked_fst t _
    have htarget := Request.target_some hmac
    unfold statusBody
    dsimp only
    cases hm : normMac t with
    | none =>
      rw [hm] at hstate
      rw [if_pos (by rw [hstate]; exact show (-1 : Int) < 0 by decide)]
      exact iff_of_true honest_failed fun m hm' => absurd ((htarget.trans hm).symm.trans hm') (by simp)
    | some m =>
      rw [hm] at hstate
      dsimp only at hstate
      have hget := hlaw.get m k
      have hnobu : (r.action = "block".toList → ∃ m', r.target = some m' ∧ m' ∈ set k) ∧
          (r.action = "unblock".toList → ∃ m', r.target = some m' ∧ m' ∉ set k) :=
        ⟨fun hb => absurd (ha.symm.trans hb) (by decide), fun hu => absurd (ha.symm.trans hu) (by decide)⟩
      by_cases hfail : (h.system (getElementCmd cfg m.text) k).1 = -1
      · rw [if_pos hfail] at hstate
        rw [if_pos (by rw [hstate]; decide)]
        refine iff_of_true honest_failed fun m' hm' _ => Or.inr ?_
        obtain rfl : m = m' := Option.some.inj ((htarget.trans hm).symm.trans hm')
        exact hfail
      · rw [if_neg hfail] at hstate
        by_cases hzero : (h.system (getElementCmd cfg m.text) k).1 = 0
        · rw [if_pos hzero] at hstate
          rw [if_neg (by rw [hstate]; decide), if_pos (by rw [hstate]; decide), honest_ok]
          refine iff_of_true ⟨hnobu.1, hnobu.2, fun _ => ⟨m, htarget.trans hm, ?_⟩⟩ fun m' hm' _ => ?_
          · rw [statusBody_blocked, if_pos (hget hzero)]
          · obtain rfl : m = m' := Option.some.inj ((htarget.trans hm).symm.trans hm')
            exact Or.inl hzero
        · rw [if_neg hzero] at hstate
          rw [if_neg (by rw [hstate]; decide), if_neg (by rw [hstate]; decide), honest_ok]
          constructor
          · rintro ⟨_, _, hs⟩ m' hm' hmem
            obtain rfl : m = m' := Option.some.inj ((htarget.trans hm).symm.trans hm')
            obtain ⟨m'', hm'', hval⟩ := hs ha
            obtain rfl : m = m'' := Option.some.inj ((htarget.trans hm).symm.trans hm'')
            rw [statusBody_blocked, if_pos hmem, Option.some.injEq, Json.str.injEq] at hval
            exact absurd hval (by decide)
          · intro hcond
            refine ⟨hnobu.1, hnobu.2, fun _ => ⟨m, htarget.trans hm, ?_⟩⟩
            have hnot : m ∉ set k := fun hmem => by
              rcases hcond m (htarget.trans hm) hmem with h0 | h1
              · exact hzero h0
              · exact hfail h1
            rw [statusBody_blocked, if_neg hnot]

/-- The other actions claim nothing about the set and leave it alone. -/
theorem other_truthful (hlaw : NftLaw h cfg set) {leases : Option NpLeases} {topic payload : Str}
    {k : κ} {r : Request} (hr : requestOf parse cfg topic payload = some r)
    (hb : r.action ≠ "block".toList) (hu : r.action ≠ "unblock".toList)
    (hs : r.action ≠ "status".toList) : Truthful h parse cfg set leases topic payload k := by
  have hset : set (perform h cfg leases r { host := k }).2.host = set k :=
    perform_other hlaw.quiet hb hu leases _
  intro r' hr' q body _
  rw [hr] at hr'
  cases hr'
  rw [npHandleMessage_eq, hr]
  exact ⟨fun _ h' => absurd h' hb, fun _ h' => absurd h' hu, fun _ h' => absurd h' hs, fun _ => hset⟩

/-- Answers are truthful exactly when they hide no failure. -/
theorem truthful_iff (hlaw : NftLaw h cfg set) (leases : Option NpLeases) (topic payload : Str)
    (k : κ) : Truthful h parse cfg set leases topic payload k ↔
      ¬ HidesFailure h parse cfg set topic payload k := by
  cases hr : requestOf parse cfg topic payload with
  | none =>
    refine iff_of_true (fun r hr' => absurd (hr.symm.trans hr') (by simp)) ?_
    rintro ⟨r, m, hr', _⟩
    exact absurd (hr.symm.trans hr') (by simp)
  | some r =>
    have hhides : HidesFailure h parse cfg set topic payload k ↔ r.reqId ≠ none ∧
        r.reqId ≠ some [] ∧ ∃ m, r.target = some m ∧ m ∈ set k ∧
          (r.action = "unblock".toList ∧ ¬ Exits0 h (deleteElementArgs cfg m.text) k ∨
            r.action = "status".toList ∧ (h.system (getElementCmd cfg m.text) k).1 ≠ 0 ∧
              (h.system (getElementCmd cfg m.text) k).1 ≠ -1) := by
      unfold HidesFailure
      rw [hr]
      constructor
      · rintro ⟨r', m, hr', h1, h2, h3⟩
        cases hr'
        exact ⟨h1, h2, m, h3⟩
      · rintro ⟨h1, h2, m, h3⟩
        exact ⟨r, m, rfl, h1, h2, h3⟩
    have hnot : ¬ HidesFailure h parse cfg set topic payload k ↔ (r.reqId ≠ none →
        r.reqId ≠ some [] → ∀ m, r.target = some m → m ∈ set k →
          ¬ (r.action = "unblock".toList ∧ ¬ Exits0 h (deleteElementArgs cfg m.text) k ∨
            r.action = "status".toList ∧ (h.system (getElementCmd cfg m.text) k).1 ≠ 0 ∧
              (h.system (getElementCmd cfg m.text) k).1 ≠ -1)) := by
      rw [hhides]
      simp only [not_and, not_exists]
    rw [hnot]
    by_cases hu : r.action = "unblock".toList
    · have hs : r.action ≠ "status".toList := by rw [hu]; decide
      rw [unblock_truthful_iff hlaw hr hu]
      refine forall_congr' fun _ => forall_congr' fun _ => forall_congr' fun m =>
        forall_congr' fun _ => forall_congr' fun _ => ⟨?_, ?_⟩
      · rintro he (⟨_, hne⟩ | ⟨hs', _⟩)
        · exact hne he
        · exact hs hs'
      · intro hn
        by_contra he
        exact hn (Or.inl ⟨hu, he⟩)
    · by_cases hs : r.action = "status".toList
      · rw [status_truthful_iff hlaw hr hs]
        refine forall_congr' fun _ => forall_congr' fun _ => forall_congr' fun m =>
          forall_congr' fun _ => forall_congr' fun _ => ⟨?_, ?_⟩
        · rintro he (⟨hu', _⟩ | ⟨_, h0, h1⟩)
          · exact hu hu'
          · exact he.elim h0 h1
        · intro hn
          by_contra he
          rw [not_or] at he
          exact hn (Or.inr ⟨hs, he⟩)
      · refine iff_of_true ?_ fun _ _ m _ _ hor => hor.elim (fun h1 => hu h1.1) fun h2 => hs h2.1
        by_cases hb : r.action = "block".toList
        · exact block_truthful hlaw hr hb
        · exact other_truthful hlaw hr hb hu hs

end Law

def numberedBody : Json :=
  .obj [("mac".toList, .str oneMac.text), ("req_id".toList, .str "1".toList)]

def numberedPayload : Str := "\x7b\"mac\":\"02:00:00:00:00:01\",\"req_id\":\"1\"\x7d".toList

theorem read_numbered : Json.read numberedPayload = some numberedBody :=
  Json.read_of_print rfl (by decide +kernel)

def unblockRequest : Request :=
  { action := "unblock".toList, mac := some oneMac.text, reqId := some "1".toList }

theorem requestOf_unblock : requestOf Json.read defaultConfig
    "netparent/router-1/cmd/unblock".toList numberedPayload = some unblockRequest := by
  decide +kernel

theorem unblockRequest_target : unblockRequest.target = some oneMac := normMac_text oneMac

/-- Where nft works, one of two blocked addresses is unblocked. -/
theorem truthful_unblocked : Truthful (Sim.host defaultConfig) Json.read defaultConfig Sim.blockedSet none
    "netparent/router-1/cmd/unblock".toList numberedPayload Sim.twoBlocked := by
  refine (truthful_iff (Sim.host_law (by unfold Sim.NamesFit; decide)) none _ _ _).mpr ?_
  rintro ⟨r, m, hr, _, _, hm, _, hor⟩
  obtain rfl : unblockRequest = r := Option.some.inj (requestOf_unblock.symm.trans hr)
  obtain rfl : oneMac = m := Option.some.inj (unblockRequest_target.symm.trans hm)
  rcases hor with ⟨_, hfails⟩ | ⟨hstatus, _⟩
  · exact hfails ⟨by decide +kernel, by decide +kernel⟩
  · exact absurd hstatus (by decide)

/-- Without nft an unblock is acknowledged and the address stays blocked. -/
theorem unblock_acknowledged_not_done : NftLaw broken defaultConfig id ∧
    ¬ Truthful broken Json.read defaultConfig id none
      "netparent/router-1/cmd/unblock".toList numberedPayload {oneMac} := by
  refine ⟨broken_law defaultConfig, fun ht => ?_⟩
  have hexits := (unblock_truthful_iff (broken_law defaultConfig) requestOf_unblock rfl).mp ht
    (by decide) (by decide) oneMac unblockRequest_target (Finset.mem_singleton_self _)
  exact absurd hexits.2 (by decide)

/-! ## Runs of commands -/

/-- The topic of a command. -/
def commandTopic (cfg : Config) (action : Str) : Str :=
  "netparent/".toList ++ cfg.deviceId ++ "/cmd/".toList ++ action

theorem commandTopic_eq (cfg : Config) (action : Str) : commandTopic cfg action =
    "netparent/".toList ++ cfg.deviceId ++ "/cmd/".toList ++ action := rfl

/-- The address a payload names, when it is a JSON document whose `mac` is accepted. -/
def payloadMac (parse : Str → Option Json) (payload : Str) : Option Mac :=
  if payload = [] then none
  else (parse (cstr payload)).bind fun json =>
    (Json.valuestring (json.getObjectItemCaseSensitive "mac".toList)).bind normMac

/-- What a message does to the set: the address blocked (`true`) or unblocked (`false`). -/
def effectOf (parse : Str → Option Json) (cfg : Config) (msg : Str × Str) : Option (Mac × Bool) :=
  (payloadMac parse msg.2).bind fun m =>
    if msg.1 = commandTopic cfg "block".toList then some (m, true)
    else if msg.1 = commandTopic cfg "unblock".toList then some (m, false)
    else none

/-- The abstract machine: block inserts, unblock erases, nothing else counts. -/
def applyCommand (parse : Str → Option Json) (cfg : Config) (S : Finset Mac) (msg : Str × Str) :
    Finset Mac :=
  match effectOf parse cfg msg with
  | some (m, true) => insert m S
  | some (m, false) => S.erase m
  | none => S

/-- The command about `m`, if the message is one. -/
def effectOn (parse : Str → Option Json) (cfg : Config) (m : Mac) (msg : Str × Str) : Option Bool :=
  (effectOf parse cfg msg).bind fun e => if e.1 = m then some e.2 else none

/-- The answer to a lookup when the set is `S`. -/
def statusAnswer (S : Finset Mac) (r : Request) : List (Str × Json) :=
  answer r.reqId <| match r.mac with
    | none => replyBody false r.action "error".toList "mac required".toList
    | some t => match normMac t with
        | none => replyBody false r.action "error".toList "lookup failed".toList
        | some m => replyBody true r.action "blocked".toList
            (if m ∈ S then "true".toList else "false".toList)

theorem statusAnswer_text (S : Finset Mac) (action : Str) (m : Mac) (reqId : Option Str) :
    statusAnswer S { action := action, mac := some m.text, reqId := reqId } =
      answer reqId (replyBody true action "blocked".toList
        (if m ∈ S then "true".toList else "false".toList)) := by
  rw [statusAnswer]
  dsimp only
  rw [normMac_text]

theorem mem_applyCommand (parse : Str → Option Json) (cfg : Config) (m : Mac) (S : Finset Mac)
    (msg : Str × Str) : decide (m ∈ applyCommand parse cfg S msg) =
      (effectOn parse cfg m msg).getD (decide (m ∈ S)) := by
  unfold applyCommand effectOn
  cases effectOf parse cfg msg with
  | none => rfl
  | some e =>
    obtain ⟨m', b⟩ := e
    by_cases hm : m' = m
    · subst hm
      cases b <;> simp
    · cases b <;> simp [hm, Ne.symm hm]

/-- The abstract machine ends with the addresses whose last command was block, or that had
    none and were there. -/
theorem mem_foldl_applyCommand (parse : Str → Option Json) (cfg : Config) (m : Mac)
    (S : Finset Mac) (msgs : List (Str × Str)) : m ∈ msgs.foldl (applyCommand parse cfg) S ↔
      (msgs.filterMap (effectOn parse cfg m)).getLast? = some true ∨
        ((msgs.filterMap (effectOn parse cfg m)).getLast? = none ∧ m ∈ S) := by
  have hfold := Register.obs_foldl (fun S => decide (m ∈ S))
    (fun S msg => mem_applyCommand parse cfg m S msg) S msgs
  have hfinal := Register.final_eq_true_iff (effectOn parse cfg m) (decide (m ∈ S)) msgs
  rw [← hfold, decide_eq_true_iff, decide_eq_true_iff] at hfinal
  exact hfinal

section Run

variable {κ : Type} (h : Host κ) (parse : Str → Option Json)

/-- Messages handled one after the other. -/
def handleAll (cfg : Config) (s : Option NpLeases × World κ) (msgs : List (Str × Str)) :
    Option NpLeases × World κ :=
  msgs.foldl (fun s msg => npHandleMessage h parse cfg s.1 msg.1 msg.2 s.2) s

variable {h parse} {cfg : Config} {set : κ → Finset Mac}

/-- The buffer for the command prefix is large enough. -/
def PrefixFits (cfg : Config) : Prop := (commandTopic cfg []).length < 128

theorem parseAction_eq_some (hfit : PrefixFits cfg) {topic action : Str} :
    parseAction topic cfg.deviceId = some action ↔ topic = commandTopic cfg action ∧ action ≠ [] := by
  have hpre : "netparent/".toList ++ cfg.deviceId ++ "/cmd/".toList = commandTopic cfg [] :=
    (List.append_nil _).symm
  have htopic : commandTopic cfg action = commandTopic cfg [] ++ action := by
    rw [commandTopic_eq, commandTopic_eq, List.append_nil]
  unfold parseAction
  dsimp only
  rw [hpre, if_neg (by unfold PrefixFits at hfit; omega), htopic]
  constructor
  · intro ha
    split at ha
    · cases ha
    · next htake =>
      rw [not_not] at htake
      split at ha
      · cases ha
      · next hne =>
        cases ha
        refine ⟨?_, hne⟩
        conv_lhs => rw [← List.take_append_drop (commandTopic cfg []).length topic, htake]
  · rintro ⟨rfl, hne⟩
    rw [if_neg (by rw [List.take_left]; simp), List.drop_left, if_neg hne]

theorem commandTopic_injective {a b : Str} (hab : commandTopic cfg a = commandTopic cfg b) : a = b :=
  List.append_cancel_left hab

/-- The address a request is about is the one its payload names. -/
theorem requestOf_target {topic payload : Str} {r : Request}
    (hr : requestOf parse cfg topic payload = some r) : r.target = payloadMac parse payload := by
  obtain ⟨action, ha, hj⟩ := Option.bind_eq_some_iff.mp hr
  obtain ⟨json, hjson, rfl⟩ := Option.map_eq_some_iff.mp hj
  unfold commandJson at hjson
  unfold Request.target payloadMac
  by_cases hp : payload = []
  · subst hp
    rw [if_neg (by simp)] at hjson
    cases hjson
    rfl
  · rw [if_pos (List.length_pos_of_ne_nil hp)] at hjson
    rw [if_neg hp, hjson]
    rfl

theorem requestOf_topic (hfit : PrefixFits cfg) {topic payload : Str} {r : Request}
    (hr : requestOf parse cfg topic payload = some r) : topic = commandTopic cfg r.action := by
  obtain ⟨action, ha, hj⟩ := Option.bind_eq_some_iff.mp hr
  obtain ⟨json, _, rfl⟩ := Option.map_eq_some_iff.mp hj
  exact ((parseAction_eq_some hfit).mp ha).1

/-- A message that asks for nothing has no effect. -/
theorem effectOf_of_none (hfit : PrefixFits cfg) {msg : Str × Str}
    (hr : requestOf parse cfg msg.1 msg.2 = none) : effectOf parse cfg msg = none := by
  unfold effectOf
  cases hm : payloadMac parse msg.2 with
  | none => rfl
  | some m =>
    have hjson : (commandJson parse msg.2).isSome := by
      unfold payloadMac at hm
      unfold commandJson
      by_cases hp : msg.2 = []
      · rw [if_pos hp] at hm; cases hm
      · rw [if_neg hp] at hm
        rw [if_pos (List.length_pos_of_ne_nil hp)]
        obtain ⟨json, hj, _⟩ := Option.bind_eq_some_iff.mp hm
        rw [hj]
        rfl
    have haction : ∀ action, action ≠ [] → msg.1 ≠ commandTopic cfg action := by
      intro action hne he
      have ha := (parseAction_eq_some hfit).mpr ⟨he, hne⟩
      rw [requestOf, ha, Option.bind_some, Option.map_eq_none_iff] at hr
      rw [hr] at hjson
      cases hjson
    rw [Option.bind_some, if_neg (haction _ (by decide)), if_neg (haction _ (by decide))]

/-- The effect of a request, from its action. -/
theorem effectOf_request (hfit : PrefixFits cfg) {msg : Str × Str} {r : Request}
    (hr : requestOf parse cfg msg.1 msg.2 = some r) : effectOf parse cfg msg =
      r.target.bind fun m =>
        if r.action = "block".toList then some (m, true)
        else if r.action = "unblock".toList then some (m, false) else none := by
  have hiff : ∀ action, msg.1 = commandTopic cfg action ↔ r.action = action := by
    intro action
    rw [requestOf_topic hfit hr]
    exact ⟨commandTopic_injective, fun h => h ▸ rfl⟩
  rw [effectOf, ← requestOf_target hr]
  simp only [hiff]

/-- The step lemma: one message changes the set as the abstract machine does. -/
theorem handle_set (hw : NftWorks h cfg set) (hfit : PrefixFits cfg) (leases : Option NpLeases)
    (msg : Str × Str) (w : World κ) :
    set (npHandleMessage h parse cfg leases msg.1 msg.2 w).2.host =
      applyCommand parse cfg (set w.host) msg := by
  rw [npHandleMessage_eq]
  cases hr : requestOf parse cfg msg.1 msg.2 with
  | none => rw [applyCommand, effectOf_of_none hfit hr]
  | some r =>
    rw [applyCommand, effectOf_request hfit hr]
    dsimp only
    by_cases hb : r.action = "block".toList
    · rw [perform_block hb, (toggle_outcome hw.quiet (npNftBlock_sent cfg) _ _ _ _ _ w).1]
      cases hmac : r.mac with
      | none => rw [Request.target_none hmac]; rfl
      | some t =>
        have hnft := hw.npNftBlock t w
        rw [Request.target_some hmac]
        cases hm : normMac t with
        | none =>
          rw [hm] at hnft
          exact hnft.2
        | some m =>
          rw [hm] at hnft
          simp only [Option.bind_some, if_pos hb]
          exact hnft.2
    · by_cases hu : r.action = "unblock".toList
      · rw [perform_unblock hu, (toggle_outcome hw.quiet (npNftUnblock_sent cfg) _ _ _ _ _ w).1]
        cases hmac : r.mac with
        | none => rw [Request.target_none hmac]; rfl
        | some t =>
          have hnft := hw.npNftUnblock t w
          rw [Request.target_some hmac]
          cases hm : normMac t with
          | none =>
            rw [hm] at hnft
            exact hnft.2
          | some m =>
            rw [hm] at hnft
            simp only [Option.bind_some, if_neg hb, if_pos hu]
            exact hnft.2
      · have hnone : (r.target.bind fun m : Mac =>
            if r.action = "block".toList then some (m, true)
            else if r.action = "unblock".toList then some (m, false) else none) = none := by
          cases r.target with
          | none => rfl
          | some m => simp only [Option.bind_some, if_neg hb, if_neg hu]
        rw [hnone]
        exact perform_other hw.quiet hb hu leases w

/-- The run lemma. -/
theorem handleAll_set (hw : NftWorks h cfg set) (hfit : PrefixFits cfg)
    (s : Option NpLeases × World κ) (msgs : List (Str × Str)) :
    set (handleAll h parse cfg s msgs).2.host = msgs.foldl (applyCommand parse cfg) (set s.2.host) := by
  induction msgs generalizing s with
  | nil => rfl
  | cons msg msgs ih =>
    rw [List.foldl_cons, ← handle_set hw hfit s.1 msg s.2]
    exact ih _

/-- A lookup is answered with membership in the set it finds. -/
theorem handle_status (hw : NftWorks h cfg set) {msg : Str × Str} {r : Request}
    (hr : requestOf parse cfg msg.1 msg.2 = some r) (ha : r.action = "status".toList)
    (leases : Option NpLeases) (w : World κ) :
    responsesOf (npHandleMessage h parse cfg leases msg.1 msg.2 w).2.trace =
      responsesOf w.trace ++ statusAnswer (set w.host) r := by
  rw [npHandleMessage_eq, hr]
  dsimp only
  rw [perform_status ha, (status_outcome hw.quiet _ _ _ w).2, statusAnswer]
  congr 2
  cases r.mac with
  | none => rfl
  | some t =>
    have hstate := hw.npNftIsBlocked t w
    unfold statusBody
    dsimp only
    cases hm : normMac t with
    | none =>
      rw [hm] at hstate
      exact if_pos (by rw [hstate]; exact show (-1 : Int) < 0 by decide)
    | some m =>
      rw [hm] at hstate
      dsimp only at hstate ⊢
      by_cases hmem : m ∈ set w.host
      · rw [if_pos hmem] at hstate
        rw [if_neg (by rw [hstate]; decide), if_pos (by rw [hstate]; decide), if_pos hmem]
      · rw [if_neg hmem] at hstate
        rw [if_neg (by rw [hstate]; decide), if_neg (by rw [hstate]; decide), if_neg hmem]

/-- **The command machine.** With an nft that works, a run of messages leaves the set they
    fold to; an address is blocked at the end exactly when its last command was block, or it had none and was
    blocked before; and every lookup is answered with membership at that point. -/
theorem command_machine (hw : NftWorks h cfg set) (hfit : PrefixFits cfg)
    (s : Option NpLeases × World κ) (msgs : List (Str × Str)) :
    set (handleAll h parse cfg s msgs).2.host =
        msgs.foldl (applyCommand parse cfg) (set s.2.host) ∧
      (∀ m, m ∈ set (handleAll h parse cfg s msgs).2.host ↔
        (msgs.filterMap (effectOn parse cfg m)).getLast? = some true ∨
          ((msgs.filterMap (effectOn parse cfg m)).getLast? = none ∧ m ∈ set s.2.host)) ∧
      ∀ before msg after, msgs = before ++ msg :: after → ∀ r,
        requestOf parse cfg msg.1 msg.2 = some r → r.action = "status".toList →
          responsesOf (handleAll h parse cfg s (before ++ [msg])).2.trace =
            responsesOf (handleAll h parse cfg s before).2.trace ++
              statusAnswer (before.foldl (applyCommand parse cfg) (set s.2.host)) r := by
  refine ⟨handleAll_set hw hfit s msgs, fun m => ?_, fun before msg after _ r hr ha => ?_⟩
  · rw [handleAll_set hw hfit, mem_foldl_applyCommand]
  · have hstep : handleAll h parse cfg s (before ++ [msg]) = npHandleMessage h parse cfg
        (handleAll h parse cfg s before).1 msg.1 msg.2 (handleAll h parse cfg s before).2 := by
      rw [handleAll, List.foldl_append]
      rfl
    rw [hstep, handle_status hw hr ha, handleAll_set hw hfit]

end Run

/-- The payload of a command about `mac`. -/
def macPayload (mac reqId : Str) : Str :=
  "\x7b\"mac\":\"".toList ++ mac ++ "\",\"req_id\":\"".toList ++ reqId ++ "\"\x7d".toList

/-- One address is unblocked, a second blocked under another spelling, one refused, and the second looked
    up. -/
def sessionCommands : List (Str × Str) :=
  [("netparent/router-1/cmd/unblock".toList, macPayload "02:00:00:00:00:01".toList "a".toList),
    ("netparent/router-1/cmd/block".toList, macPayload "02-00-00-00-00-AB".toList "b".toList),
    ("netparent/router-1/cmd/block".toList, macPayload "02:00:00".toList "c".toList),
    ("netparent/router-1/cmd/status".toList, macPayload "02:00:00:00:00:ab".toList "d".toList)]

/-- The session on the machine of `Sim`, from a set of two. -/
theorem command_machine_session :
    Sim.blockedSet (handleAll (Sim.host defaultConfig) Json.read defaultConfig
      (none, { host := Sim.twoBlocked }) sessionCommands).2.host = {twoMac, numberedMac (10, 11)} ∧
    responsesOf (handleAll (Sim.host defaultConfig) Json.read defaultConfig
        (none, { host := Sim.twoBlocked }) sessionCommands).2.trace =
      responsesOf (handleAll (Sim.host defaultConfig) Json.read defaultConfig
        (none, { host := Sim.twoBlocked }) (sessionCommands.take 3)).2.trace ++
        [("d".toList, replyBody true "status".toList "blocked".toList "true".toList)] := by
  have hworks : NftWorks (Sim.host defaultConfig) defaultConfig Sim.blockedSet :=
    Sim.host_works (by unfold Sim.NamesFit; decide)
  have hfit : PrefixFits defaultConfig := by unfold PrefixFits; decide
  have hrun := @command_machine _ _ Json.read _ _ hworks hfit (none, { host := Sim.twoBlocked })
    sessionCommands
  refine ⟨hrun.1.trans (by decide +kernel), ?_⟩
  refine (hrun.2.2 (sessionCommands.take 3) _ [] rfl
    { action := "status".toList, mac := some (numberedMac (10, 11)).text, reqId := some "d".toList }
    (by decide +kernel) rfl).trans ?_
  rw [statusAnswer_text, if_pos (by decide +kernel)]
  rfl

end Netparent
