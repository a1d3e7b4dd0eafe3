/-
  The topics of the daemon and the web app, built on one side and taken apart on the other.

  `Agree` says that they fit together for a device id: its messages reach the handlers they are
  for, under that id, and its commands reach its daemon and no other. The daemon has a 128-byte
  buffer for the devices topic and one of 160 bytes for the events; an id that fits the first fits
  every other buffer, so they agree exactly up to that length (`agree_iff`).
-/
import Netparent.Command
import Netparent.Lib.TopicFilter
import Netparent.Web.Delivery

namespace Netparent

open TopicFilter (accepts levels)

/-- The filter `np_mqtt_create` builds and `on_connect` subscribes to. -/
def cmdFilter (cfg : Config) : Str := "netparent/".toList ++ cfg.deviceId ++ "/cmd/#".toList

/-- A non-empty topic level without wildcards. -/
structure IsLevel (id : Str) : Prop where
  nonempty : id ≠ []
  noSlash : '/' ∉ id
  noPlus : '+' ∉ id
  noHash : '#' ∉ id
  noNul : '\x00' ∉ id

/-- The topic buffers are the shorter ones. -/
theorem Config.Routable.prefixFits {cfg : Config} (hr : cfg.Routable) : PrefixFits cfg := by
  have hlit : ("netparent/".toList).length = 10 ∧ ("/cmd/".toList).length = 5 := by decide
  have hshort := hr.short
  unfold PrefixFits
  rw [commandTopic_eq]
  simp only [List.length_append, hlit, List.length_nil]
  omega

/-- A topic that `parse_action` takes for id `id'` begins like the topics of that id. -/
theorem parseAction_begins {id id' action : Str}
    (h : parseAction ("netparent/".toList ++ id ++ "/cmd/".toList ++ action) id' ≠ none) :
    ∃ rest, id' ++ '/' :: ("cmd/".toList ++ rest) = id ++ '/' :: ("cmd/".toList ++ action) := by
  unfold parseAction at h
  dsimp only at h
  split at h
  · exact absurd rfl h
  split at h
  · exact absurd rfl h
  · next htake =>
    have hpre : "netparent/".toList ++ (id' ++ "/cmd/".toList) <+:
        "netparent/".toList ++ (id ++ ("/cmd/".toList ++ action)) := by
      simp only [← List.append_assoc]
      exact List.prefix_iff_eq_take.mpr (not_not.mp htake).symm
    obtain ⟨rest, hrest⟩ := (List.prefix_append_right_inj _).mp hpre
    rw [List.append_assoc] at hrest
    exact ⟨rest, hrest⟩

/-- Of two levels, neither takes the commands of the other. -/
theorem parseAction_level {id id' : Str} (hid : '/' ∉ id) (hid' : '/' ∉ id') (hne : id' ≠ id)
    (action : Str) :
    parseAction ("netparent/".toList ++ id ++ "/cmd/".toList ++ action) id' = none := by
  by_contra htaken
  obtain ⟨rest, hrest⟩ := parseAction_begins htaken
  have hlevels := congrArg levels hrest
  rw [TopicFilter.levels_cons hid', TopicFilter.levels_cons hid] at hlevels
  exact hne (List.cons.inj hlevels).1

/-- An action without a slash reaches only the daemon whose id stands in the topic: another id
    would have to be a level as well. -/
theorem parseAction_other {id id' action : Str} (hid : '/' ∉ id) (haction : '/' ∉ action)
    (hne : id' ≠ id) :
    parseAction ("netparent/".toList ++ id ++ "/cmd/".toList ++ action) id' = none := by
  by_cases hid' : '/' ∈ id'
  · by_contra htaken
    obtain ⟨rest, hrest⟩ := parseAction_begins htaken
    have hcount := congrArg (List.count '/') hrest
    have hpos : 0 < id'.count '/' := List.count_pos_iff.mpr hid'
    have hone : "cmd/".toList.count '/' = 1 := by decide
    simp only [List.count_append, List.count_cons_self, hone, List.count_eq_zero.mpr hid,
      List.count_eq_zero.mpr haction] at hcount
    omega
  · exact parseAction_level hid hid' hne action

theorem levels_topic {id : Str} (h : '/' ∉ id) (rest : Str) :
    levels ("netparent/".toList ++ id ++ '/' :: rest) = "netparent".toList :: id :: levels rest := by
  have hcut : "netparent/".toList ++ id ++ '/' :: rest =
      "netparent".toList ++ '/' :: (id ++ '/' :: rest) := by simp
  rw [hcut, TopicFilter.levels_cons (by decide), TopicFilter.levels_cons h]

/-- The command topics lie under the filter, whatever the action. -/
theorem cmdFilter_accepts {cfg : Config} (h : IsLevel cfg.deviceId) (action : Str) :
    accepts (cmdFilter cfg) (commandTopic cfg action) = true := by
  have hfilter : cmdFilter cfg = "netparent/".toList ++ cfg.deviceId ++ '/' :: "cmd/#".toList := rfl
  have htopic : commandTopic cfg action =
      "netparent/".toList ++ cfg.deviceId ++ '/' :: ("cmd".toList ++ '/' :: action) := by
    simp [commandTopic_eq]
  refine TopicFilter.accepts_of_levels (fun c hc => ?_) ?_
  · obtain rfl : 'n' = c := Option.some.inj hc
    decide
  · have hcmd : levels "cmd/#".toList = ["cmd".toList, ['#']] := by decide
    rw [hfilter, htopic, levels_topic h.noSlash, levels_topic h.noSlash, hcmd,
      TopicFilter.levels_cons (by decide), TopicFilter.matchLevels_self (by decide),
      TopicFilter.matchLevels_self h.noHash, TopicFilter.matchLevels_self (by decide),
      TopicFilter.matchLevels_hash]

namespace Web

/-- The filters of `onConnect`. -/
def Sub.filter : Sub → Str
  | .status => "netparent/+/status".toList
  | .devices => "netparent/+/devices".toList
  | .event => "netparent/+/event/device".toList

/-- What follows the device id in the topic of a subscription. -/
def Sub.suffix : Sub → Str
  | .status => "status".toList
  | .devices => "devices".toList
  | .event => "event/device".toList

/-- The topic of a message for the subscription: `netparent/<device_id>/` and the suffix. -/
def fullTopic (cfg : Config) (sub : Sub) : Str :=
  "netparent/".toList ++ cfg.deviceId ++ '/' :: sub.suffix

theorem fullTopic_eq (cfg : Config) (sub : Sub) :
    fullTopic cfg sub = "netparent/".toList ++ cfg.deviceId ++ '/' :: sub.suffix := rfl

theorem fullTopic_accepts {cfg : Config} (h : IsLevel cfg.deviceId) (sub : Sub) :
    accepts sub.filter (fullTopic cfg sub) = true := by
  have hfilter : levels sub.filter = "netparent".toList :: ['+'] :: levels sub.suffix := by
    cases sub <;> decide
  have hsuffix : TopicFilter.matchLevels (levels sub.suffix) (levels sub.suffix) = true := by
    cases sub <;> decide
  refine TopicFilter.accepts_of_levels (fun c hc => ?_) ?_
  · have hn : sub.filter.head? = some 'n' := by cases sub <;> rfl
    obtain rfl : 'n' = c := Option.some.inj (hn.symm.trans hc)
    decide
  · rw [hfilter, fullTopic_eq, levels_topic h.noSlash, TopicFilter.matchLevels_self (by decide),
      TopicFilter.matchLevels_plus, hsuffix]

/-- Up to 109 bytes the id fits every buffer. -/
theorem topic_full {cfg : Config} (hr : cfg.Routable) {m : Msg} {sub : Sub}
    (hsub : subOf m = some sub) : m.topic cfg = fullTopic cfg sub := by
  cases m with
  | status online =>
    obtain rfl := Option.some.inj hsub
    rfl
  | devices t l =>
    obtain rfl := Option.some.inj hsub
    exact topic_untruncated hr "/devices".toList (show _ ≤ 128 by decide)
  | event e =>
    obtain rfl := Option.some.inj hsub
    exact topic_untruncated hr "/event/device".toList (show _ ≤ 160 by decide)
  | response suffix body => cases hsub

/-- Past that, the devices topic is cut. -/
theorem devices_cut {cfg : Config} (hlong : 110 ≤ cfg.deviceId.length) (t : Int) (l : List Dev) :
    (Msg.devices t l).topic cfg ≠ fullTopic cfg .devices := by
  intro heq
  have hlen := congrArg List.length heq
  have hpre : ("netparent/".toList).length = 10 := by decide
  have hsuf : Sub.devices.suffix.length = 7 := by decide
  have hcut : ((Msg.devices t l).topic cfg).length ≤ 127 := by
    rw [topic_devices, snprintf]
    exact List.length_take_le 127 _
  rw [fullTopic_eq, List.length_append, List.length_append, List.length_cons, hpre, hsuf] at hlen
  omega

/-- The topics built for a device id are what the other side takes them for. -/
structure Agree (cfg : Config) : Prop where
  /-- The daemon's messages: the exact topic, matched by the subscription, mapped back to the id. -/
  published : ∀ m sub, subOf m = some sub → m.topic cfg = fullTopic cfg sub
  matched : ∀ m sub, subOf m = some sub → accepts sub.filter (m.topic cfg) = true
  mapped : ∀ m sub, subOf m = some sub → routerIDFromTopic (m.topic cfg) = cfg.deviceId
  /-- The web app's commands: under the daemon's filter, parsed to their action, and rejected for
      every other id. -/
  subscribed : ∀ broker stamp action mac cmd,
    (publishCmd broker stamp cfg.deviceId action mac).2 = some cmd →
      accepts (cmdFilter cfg) cmd.topic = true
  parsed : ∀ broker stamp action mac cmd,
    (publishCmd broker stamp cfg.deviceId action mac).2 = some cmd →
      parseAction cmd.topic cfg.deviceId = some action
  rejected : ∀ broker stamp action mac cmd,
    (publishCmd broker stamp cfg.deviceId action mac).2 = some cmd →
      ∀ id, IsLevel id → id ≠ cfg.deviceId → parseAction cmd.topic id = none

/-- What `publishCmd` hands to the client. -/
theorem publishCmd_topic {broker : Command → Option Str} {stamp action mac : Str} {cfg : Config}
    {cmd : Command} (h : (publishCmd broker stamp cfg.deviceId action mac).2 = some cmd) :
    action ≠ [] ∧ cmd.topic = commandTopic cfg action := by
  unfold publishCmd at h
  split at h
  · cases h
  · next hne =>
    obtain rfl := Option.some.inj h
    exact ⟨fun ha => hne (Or.inr ha), rfl⟩

/-- **Builders and parsers.** For a device id that is one level, they agree exactly when it has at
    most 109 bytes. -/
theorem agree_iff (cfg : Config) (h : IsLevel cfg.deviceId) :
    Agree cfg ↔ cfg.deviceId.length ≤ 109 := by
  constructor
  · intro hagree
    by_contra hlong
    exact devices_cut (by omega) 0 [] (hagree.published (.devices 0 []) .devices rfl)
  · intro hshort
    have hr : cfg.Routable := ⟨h.nonempty, h.noSlash, hshort⟩
    refine ⟨fun m sub hsub => topic_full hr hsub, fun m sub hsub => ?_,
      fun m sub _ => topic_routes hr m, fun broker stamp action mac cmd hcmd => ?_,
      fun broker stamp action mac cmd hcmd => ?_,
      fun broker stamp action mac cmd hcmd id hid hne => ?_⟩
    · rw [topic_full hr hsub]
      exact fullTopic_accepts h sub
    · rw [(publishCmd_topic hcmd).2]
      exact cmdFilter_accepts h action
    · exact (parseAction_eq_some hr.prefixFits).mpr (publishCmd_topic hcmd).symm
    · rw [(publishCmd_topic hcmd).2, commandTopic_eq]
      exact parseAction_level h.noSlash hid.noSlash hne action

/-- The id of the default configuration. -/
theorem agree_iff_default : Agree defaultConfig ↔ defaultConfig.deviceId.length ≤ 109 :=
  agree_iff defaultConfig ⟨by decide, by decide, by decide, by decide, by decide⟩

/-- An id of 110 bytes. -/
def longId : Config := { defaultConfig with deviceId := List.replicate 110 'a' }

/-- Its devices topic loses the last byte. -/
theorem longId_disagrees : IsLevel longId.deviceId ∧ ¬ Agree longId := by
  have hfree : ∀ c, c ≠ 'a' → c ∉ longId.deviceId := fun c hc hmem =>
    hc (List.eq_of_mem_replicate hmem)
  refine ⟨⟨by decide, hfree '/' (by decide), hfree '+' (by decide), hfree '#' (by decide),
    hfree '\x00' (by decide)⟩, fun hagree => ?_⟩
  exact devices_cut (List.length_replicate.ge) 0 [] (hagree.published (.devices 0 []) .devices rfl)

end Web

end Netparent
