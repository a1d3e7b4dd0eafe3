/-
  How many responses a command gets.

  `reply` publishes one response when there is a request id and none when it is missing or empty,
  and every action but one ends in a single `reply` (`perform_answer`). `list` publishes for itself and
  does not look whether the id is empty (`list_responses`). A device id too long for the
  prefix buffer gets no answers at all.
-/
import Netparent.Command

namespace Netparent

variable {κ : Type} {h : Host κ} {cfg : Config} {parse : Str → Option Json}

/-- The body repeats the action. -/
def Echoes (action : Str) (body : Json) : Prop :=
  body.getObjectItemCaseSensitive "action".toList = some (.str action)

theorem replyBody_echoes (ok : Bool) (action key val : Str) :
    Echoes action (replyBody ok action key val) := rfl

theorem listBody_echoes (action : Str) (macs : List Str) : Echoes action (listBody action macs) := rfl

theorem toggleBody_echoes (rc : Str → Int) (failed action : Str) (mac : Option Str) :
    Echoes action (toggleBody rc failed action mac) := by
  cases mac with
  | none => exact replyBody_echoes _ _ _ _
  | some mac =>
    unfold toggleBody
    dsimp only
    split
    · exact replyBody_echoes _ _ _ _
    · exact replyBody_echoes _ _ _ _

theorem statusBody_echoes (state : Str → Int) (action : Str) (mac : Option Str) :
    Echoes action (statusBody state action mac) := by
  cases mac with
  | none => exact replyBody_echoes _ _ _ _
  | some mac =>
    unfold statusBody
    dsimp only
    split
    · exact replyBody_echoes _ _ _ _
    · exact replyBody_echoes _ _ _ _

/-- Nothing has to be known of the host to count responses. -/
theorem quiet_trivial : Quiet h cfg fun _ => () := ⟨fun _ => rfl, fun _ _ => rfl, fun _ => rfl, fun _ _ _ _ => rfl⟩

/-! ## The actions -/

theorem perform_list {r : Request} (ha : r.action = "list".toList) (leases : Option NpLeases)
    (w : World κ) : perform h cfg leases r w = (leases, listCommand h cfg r.action r.reqId w) := by
  rw [perform, if_neg (by rw [ha]; decide), if_neg (by rw [ha]; decide), if_neg (by rw [ha]; decide),
    if_pos ha]

/-- `list` answers whatever the request id says, if there is one. -/
theorem list_responses (h : Host κ) (cfg : Config) {r : Request} (ha : r.action = "list".toList)
    (leases : Option NpLeases) (w : World κ) :
    ∃ body, Echoes r.action body ∧ responsesOf (perform h cfg leases r w).2.trace =
      responsesOf w.trace ++ r.reqId.toList.map fun q => (q, body) := by
  refine ⟨listBody r.action ((npNftList h cfg w).1.getD []), listBody_echoes _ _, ?_⟩
  have hread : responsesOf (npNftList h cfg w).2.trace = responsesOf w.trace :=
    responses_keeps.npNftList w
  rw [perform_list ha]
  unfold listCommand
  cases r.reqId with
  | none => simpa using hread
  | some q =>
    dsimp only
    rw [responsesOf, publish_messages, List.filterMap_append]
    exact congrArg (· ++ _) hread

/-- Every other action sends one answer. -/
theorem perform_answer (h : Host κ) (cfg : Config) {r : Request} (ha : r.action ≠ "list".toList)
    (leases : Option NpLeases) (w : World κ) : ∃ body, Echoes r.action body ∧
      responsesOf (perform h cfg leases r w).2.trace =
        responsesOf w.trace ++ answer r.reqId body := by
  by_cases hb : r.action = "block".toList
  · rw [perform_block hb]
    exact ⟨_, toggleBody_echoes _ _ _ _,
      (toggle_outcome quiet_trivial (npNftBlock_sent cfg) _ _ _ _ _ w).2⟩
  by_cases hu : r.action = "unblock".toList
  · rw [perform_unblock hu]
    exact ⟨_, toggleBody_echoes _ _ _ _,
      (toggle_outcome quiet_trivial (npNftUnblock_sent cfg) _ _ _ _ _ w).2⟩
  by_cases hs : r.action = "status".toList
  · rw [perform_status hs]
    exact ⟨_, statusBody_echoes _ _ _, (status_outcome quiet_trivial _ _ _ w).2⟩
  rw [perform, if_neg hb, if_neg hu, if_neg hs, if_neg ha]
  split
  · exact ⟨_, replyBody_echoes _ _ _ _, reply_responses _ _ _ _ _ w⟩
  · exact ⟨_, replyBody_echoes _ _ _ _, reply_responses _ _ _ _ _ w⟩

/-! ## One response -/

/-- The responses a message with this action and request id should get. -/
structure AnsweredOnce (action : Str) (reqId : Option Str) (responses : List (Str × Json)) : Prop where
  given : ∀ q, reqId = some q → q ≠ [] → ∃ body, Echoes action body ∧ responses = [(q, body)]
  missing : reqId = none ∨ reqId = some [] → responses = []

theorem answer_once (action : Str) (reqId : Option Str) {body : Json} (hb : Echoes action body) :
    AnsweredOnce action reqId (answer reqId body) where
  given q hq hne := ⟨body, hb, by rw [hq]; exact if_neg hne⟩
  missing hmiss := by
    rcases hmiss with hr | hr
    · rw [hr]; rfl
    · rw [hr]; rfl

theorem listed_once (action : Str) (reqId : Option Str) {body : Json} (hb : Echoes action body) :
    AnsweredOnce action reqId (reqId.toList.map fun q => (q, body)) ↔ reqId ≠ some [] := by
  constructor
  · rintro ho rfl
    cases ho.missing (Or.inr rfl)
  · intro hne
    refine ⟨fun q hq _ => ⟨body, hb, by rw [hq]; rfl⟩, fun hmiss => ?_⟩
    rw [hmiss.resolve_right hne]
    rfl

theorem silent_once (action : Str) (reqId : Option Str) :
    AnsweredOnce action reqId [] ↔ reqId = none ∨ reqId = some [] := by
  constructor
  · intro ho
    by_contra hno
    obtain ⟨hnone, hempty⟩ := not_or.mp hno
    obtain ⟨q, hq⟩ := Option.ne_none_iff_exists'.mp hnone
    obtain ⟨_, _, hbad⟩ := ho.given q hq fun he => hempty (he ▸ hq)
    cases hbad
  · intro hmiss
    refine ⟨fun q hq hne => ?_, fun _ => rfl⟩
    rcases hmiss with hm | hm
    · rw [hq] at hm; cases hm
    · exact absurd (Option.some.inj (hq.symm.trans hm)) hne

/-- The request id a payload carries. -/
def reqIdOf (json : Json) : Option Str :=
  Json.valuestring (json.getObjectItemCaseSensitive "req_id".toList)

instance : Decidable (PrefixFits cfg) := inferInstanceAs (Decidable (_ < _))

/-- A message on a topic of the daemon, when the prefix fits its buffer. -/
theorem requestOf_addressed (hfit : PrefixFits cfg) {action payload : Str} {json : Json}
    (hne : action ≠ []) (hj : commandJson parse payload = some json) :
    requestOf parse cfg (commandTopic cfg action) payload = some
      { action := action
        mac := Json.valuestring (json.getObjectItemCaseSensitive "mac".toList)
        reqId := reqIdOf json } := by
  rw [requestOf, (parseAction_eq_some hfit).mpr ⟨rfl, hne⟩, Option.bind_some, hj]
  rfl

/-- When it does not, the message is taken for one on another topic. -/
theorem requestOf_unfit (hfit : ¬ PrefixFits cfg) (topic payload : Str) :
    requestOf parse cfg topic payload = none := by
  have hnone : parseAction topic cfg.deviceId = none := by
    refine if_pos ?_
    have hpre : "netparent/".toList ++ cfg.deviceId ++ "/cmd/".toList = commandTopic cfg [] :=
      (List.append_nil _).symm
    rw [hpre]
    exact not_lt.mp hfit
  rw [requestOf, hnone]
  rfl

/-- **When a command is answered once.** A message addressed to the daemon gets one response if it
    carries a request id and none if it does not, exactly when it is not a `list` with an empty
    id, and the daemon's own prefix fits its buffer or no response is due. -/
theorem answeredOnce_iff (h : Host κ) (parse : Str → Option Json) (cfg : Config)
    (leases : Option NpLeases) {action payload : Str} {json : Json} (hne : action ≠ [])
    (hj : commandJson parse payload = some json) (w : World κ) :
    ∃ responses, responsesOf (npHandleMessage h parse cfg leases (commandTopic cfg action) payload
        w).2.trace = responsesOf w.trace ++ responses ∧
      (AnsweredOnce action (reqIdOf json) responses ↔
        if PrefixFits cfg then ¬ (action = "list".toList ∧ reqIdOf json = some [])
        else reqIdOf json = none ∨ reqIdOf json = some []) := by
  rw [npHandleMessage_eq]
  by_cases hfit : PrefixFits cfg
  · rw [requestOf_addressed hfit hne hj, if_pos hfit]
    let r : Request :=
      { action := action
        mac := Json.valuestring (json.getObjectItemCaseSensitive "mac".toList)
        reqId := reqIdOf json }
    by_cases hlist : r.action = "list".toList
    · obtain ⟨body, hbody, hresp⟩ := list_responses h cfg hlist leases w
      refine ⟨_, hresp, (listed_once _ _ hbody).trans ?_⟩
      exact ⟨fun hid hbad => hid hbad.2, fun hgood hid => hgood ⟨hlist, hid⟩⟩
    · obtain ⟨body, hbody, hresp⟩ := perform_answer h cfg hlist leases w
      exact ⟨_, hresp, iff_of_true (answer_once _ _ hbody) fun hbad => hlist hbad.1⟩
  · rw [requestOf_unfit hfit, if_neg hfit]
    exact ⟨[], (List.append_nil _).symm, silent_once _ _⟩

/-- A `ping` with a request id. -/
theorem answeredOnce_ping : ∃ responses,
    responsesOf (npHandleMessage broken Json.read defaultConfig none
      (commandTopic defaultConfig "ping".toList) numberedPayload { host := ∅ }).2.trace =
        [] ++ responses ∧
      (AnsweredOnce "ping".toList (reqIdOf numberedBody) responses ↔
        if PrefixFits defaultConfig then ¬ ("ping".toList = "list".toList ∧
          reqIdOf numberedBody = some [])
        else reqIdOf numberedBody = none ∨ reqIdOf numberedBody = some []) :=
  answeredOnce_iff broken Json.read defaultConfig none (by decide) (by exact read_numbered) { host := ∅ }

/-- A `list` with an empty request id is answered. -/
theorem list_empty_id_answered : ¬ AnsweredOnce "list".toList (some [])
    (responsesOf (npHandleMessage broken Json.read defaultConfig none
      (commandTopic defaultConfig "list".toList) "\x7b\"req_id\":\"\"\x7d".toList { host := ∅ }).2.trace) := by
  intro ho
  exact absurd (congrArg List.length (ho.missing (Or.inr rfl))) (by decide +kernel)

end Netparent
